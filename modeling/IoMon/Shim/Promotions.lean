/-
# Shared mappings that become writable

`promotion_recorded`: a shared file mapping that becomes writable before any part of it is unmapped
is recorded as a write, over every run whose calls are seen.  `ListChange` says once what a call can
do to the list of mappings, and `Tracked` is what it keeps of one entry.
-/
import IoMon.Shim.SharedMappings

namespace IoMon.SharedMappings

open ByteText Intervals

/-! ## 1. One entry -/

/-- A record of a write to a path. -/
def IsWrite (path : NimStr) (w : ShimEvent) : Prop :=
  ∃ detail result flags, w = .fileWrite path detail result flags

/-- A write was recorded behind the first `n` events. -/
def WrittenSince (n : Nat) (path : NimStr) (s : Session) : Prop :=
  ∃ w ∈ s.events.drop n, IsWrite path w

/-- A mapping is in the list, and unmarked unless a write was recorded for it. -/
def Tracked (n : Nat) (r : Range Nat) (path : NimStr) (s : Session) : Prop :=
  n ≤ s.events.length ∧ ∃ m ∈ s.shim.sharedMmaps, m.range = r ∧ m.path = path ∧
    (m.mprotectWriteEmitted = true → WrittenSince n path s)

section Tracking

variable {s s' : Session} {e : Event} {n : Nat} {r : Range Nat} {path : NimStr}

theorem events_step (h : step s e = some s') : s'.events = s.events ++ (hook s.shim e).2 := by
  obtain ⟨-, rfl⟩ := step_eq.mp h
  rfl

theorem WrittenSince.step (hw : WrittenSince n path s) (h : step s e = some s') :
    WrittenSince n path s' := by
  obtain ⟨w, hmem, hwrite⟩ := hw
  refine ⟨w, ?_, hwrite⟩
  rw [events_step h, List.drop_append]
  exact List.mem_append_left _ hmem

theorem writtenSince_of_hook (hn : n ≤ s.events.length) (h : step s e = some s') {w : ShimEvent}
    (hmem : w ∈ (hook s.shim e).2) (hwrite : IsWrite path w) : WrittenSince n path s' := by
  refine ⟨w, ?_, hwrite⟩
  rw [events_step h, List.drop_append_of_le_length hn]
  exact List.mem_append_right _ hmem

/-- An entry behind another mapping: its flag is as it was, or the other one's call wrote the same
path. -/
theorem rememberRange_keeps {r₁ : Range Nat} {path₁ : NimStr} {write : Bool}
    {m : SharedMmapRange} : ∀ {l : List SharedMmapRange}, m ∈ l →
      ∃ m' ∈ rememberRange r₁ path₁ write l, m'.range = m.range ∧ m'.path = m.path ∧
        (m'.mprotectWriteEmitted = m.mprotectWriteEmitted ∨ write = true ∧ m.path = path₁) := by
  intro l
  induction l with
  | nil => exact fun h => absurd h List.not_mem_nil
  | cons m₀ rest ih =>
    intro hm
    rw [rememberRange]
    split
    · rename_i hsame
      rcases List.mem_cons.mp hm with rfl | hm
      · refine ⟨_, List.mem_cons_self .., ?_⟩
        split
        · rename_i hwrite
          exact ⟨rfl, rfl, .inr ⟨hwrite, hsame.2⟩⟩
        · exact ⟨rfl, rfl, .inl rfl⟩
      · exact ⟨m, List.mem_cons_of_mem _ hm, rfl, rfl, .inl rfl⟩
    · rcases List.mem_cons.mp hm with rfl | hm
      · exact ⟨m, List.mem_cons_self .., rfl, rfl, .inl rfl⟩
      · obtain ⟨m', hm', hkept⟩ := ih hm
        exact ⟨m', List.mem_cons_of_mem _ hm', hkept⟩

/-- A range that is not in the list is put at its end. -/
theorem mem_rememberRange_new {r₁ : Range Nat} {path₁ : NimStr} {write : Bool} :
    ∀ {l : List SharedMmapRange}, (∀ m ∈ l, m.range ≠ r₁) →
      ⟨r₁, path₁, write⟩ ∈ rememberRange r₁ path₁ write l := by
  intro l
  induction l with
  | nil => exact fun _ => List.mem_singleton.mpr rfl
  | cons m rest ih =>
    intro hnew
    rw [rememberRange, if_neg fun hsame => hnew m (List.mem_cons_self ..) hsame.1]
    exact List.mem_cons_of_mem _ (ih fun m hm => hnew m (List.mem_cons_of_mem _ hm))

/-! ## 2. What a call does to it -/

/-- What a call can do to the list: nothing; a mapping, whose flag is set where its write is
recorded; promotions, each with its record; or a loss of what it unmaps. -/
inductive ListChange (s : ShimState) (e : Event) : Prop
  | same (list : (hook s e).1.sharedMmaps = s.sharedMmaps)
  | mapping {r : Range Nat} {path : NimStr} {write : Bool}
    (list : (hook s e).1.sharedMmaps = rememberRange r path write s.sharedMmaps)
    (recorded : write = true → ∃ w ∈ (hook s e).2, IsWrite path w)
  | promotion {r : Range Nat}
    (list : (hook s e).1.sharedMmaps = s.sharedMmaps.map fun m =>
      if promotes r m then { m with mprotectWriteEmitted := true } else m)
    (recorded : ∀ m ∈ s.sharedMmaps, promotes r m = true → promotedWrite m.path ∈ (hook s e).2)
  | unmapping {addr len : Nat} {r : Range Nat} (call : e.call = .munmap addr len true)
    (range : callRange addr len = some r)
    (list : (hook s e).1.sharedMmaps = s.sharedMmaps.filter fun m => !meets r m.range)

theorem recoverMapped_maps (k : Answers) (t : ShimState) (prot : UInt32) (fd : Int32) :
    (recoverMapped k t prot fd).1.sharedMmaps = t.sharedMmaps := by
  rcases recoverMapped_cases k t prot fd with hsame | ⟨p, -, -, hset⟩
  · rw [hsame]
  · rw [hset]
    exact (updateFdPath_maps t fd p).2

theorem rememberSharedMmap_list (t : ShimState) (addr len : Nat) (prot : UInt32) (path : NimStr) :
    (rememberSharedMmap t addr len prot path).sharedMmaps = t.sharedMmaps ∨
      ∃ r, (rememberSharedMmap t addr len prot path).sharedMmaps =
        rememberRange r path (prot &&& ProtWrite != 0) t.sharedMmaps := by
  rw [rememberSharedMmap]
  split
  · exact .inl rfl
  split
  · exact .inl rfl
  split
  · exact .inl rfl
  · exact .inr ⟨_, rfl⟩

/-- What a mapping records, and keeps, where it is of a file with a path. -/
theorem recordMmap_shared (k : Answers) (t : ShimState) {result : Nat} (len : Nat) (prot : UInt32)
    {flags : UInt32} {fd : Int32} (hmapped : result ≠ MapFailed) (hpos : 0 ≤ fd)
    (hanon : flags &&& MapAnon = 0) (hshm : shmNameForFd t fd = [])
    (hshared : flags &&& MapShared ≠ 0)
    (hpath : pathForFd (recoverMapped k t prot fd).1 fd ≠ []) :
    recordMmap k t result len prot flags fd =
      (rememberSharedMmap (recoverMapped k t prot fd).1 result len prot
          (pathForFd (recoverMapped k t prot fd).1 fd),
        (recoverMapped k t prot fd).2 ++ if prot &&& ProtWrite ≠ 0 then
          [mappedWrite (pathForFd (recoverMapped k t prot fd).1 fd) fd] else []) := by
  rw [recordMmap, if_neg (not_or.mpr ⟨hmapped, Int32.not_lt.mpr hpos⟩), if_neg (not_not.mpr hanon),
    if_neg (not_not.mpr hshm)]
  exact if_pos ⟨hshared, hpath⟩

theorem listChange_mmap (t : ShimState) {result len : Nat} {prot flags : UInt32} {fd : Int32}
    (hcall : e.call = .mmap result len prot flags fd) : ListChange t e := by
  by_cases hskip : e.muted ∨ entersMmap t prot flags fd = false
  · refine .same ?_
    simp only [hook, hookWith, hcall]
    rw [if_pos hskip]
  have hhook : hook t e = recordMmap e.answers t result len prot flags fd := by
    simp only [hook, hookWith, hcall]
    rw [if_neg hskip]
  rcases recordMmap_state e.answers t result len prot flags fd with hsame |
    ⟨hmapped, hpos, hanon, hstate⟩
  · refine .same ?_
    rw [hhook, hsame]
  by_cases hshared : flags &&& MapShared ≠ 0 ∧
      pathForFd (recoverMapped e.answers t prot fd).1 fd ≠ []
  · rw [if_pos hshared] at hstate
    rcases rememberSharedMmap_list (recoverMapped e.answers t prot fd).1 result len prot
      (pathForFd (recoverMapped e.answers t prot fd).1 fd) with hlist | ⟨r, hlist⟩
    · refine .same ?_
      rw [hhook, hstate, hlist, recoverMapped_maps]
    · by_cases hshm : shmNameForFd t fd = []
      · refine .mapping (by rw [hhook, hstate, hlist, recoverMapped_maps]) fun hwrite => ?_
        rw [hhook,
          recordMmap_shared e.answers t len prot hmapped hpos hanon hshm hshared.1 hshared.2,
          if_pos (by simpa using hwrite)]
        exact ⟨_, List.mem_append_right _ (List.mem_singleton.mpr rfl), _, _, _, rfl⟩
      · -- a shared-memory object is never put into the list
        refine .same ?_
        rw [hhook, recordMmap, if_neg (not_or.mpr ⟨hmapped, Int32.not_lt.mpr hpos⟩),
          if_neg (not_not.mpr hanon), if_pos hshm]
  · refine .same ?_
    rw [hhook, hstate, if_neg hshared, recoverMapped_maps]

theorem listChange (t : ShimState) (e : Event) : ListChange t e := by
  cases hcall : e.call with
  | openat path result file =>
    refine .same ?_
    simp only [hook, hookWith, hcall]
    split
    · rfl
    · rw [recordCanonicalTarget]
      have hopened := (updateFdPath_maps t result path).2
      split
      · exact hopened
      split
      · exact hopened
      split
      · exact hopened
      · exact (updateFdPath_maps _ result _).2.trans hopened
  | close fd =>
    refine .same ?_
    simp only [hook, hookWith, hcall]
    split
    · rfl
    · exact (setsPath_removeFdPath t fd).maps
  | dup oldfd result =>
    refine .same ?_
    simp only [hook, hookWith, hcall]
    split
    · rfl
    · rename_i hdup
      exact (setsPath_copyFdPath t oldfd (Int32.not_lt.mp fun hneg => hdup (.inr hneg))).maps
  | shmOpen name result object =>
    refine .same ?_
    simp only [hook, hookWith, hcall]
    split
    · rfl
    · rw [recordShmOpen]
      split <;> rfl
  | read fd nbytes =>
    refine .same ?_
    simp only [hook, hookWith, hcall]
    split
    · rfl
    rcases recordFdRead_cases e.answers t fd nbytes with hsame | ⟨p, -, -, -, hset⟩
    · exact hsame.maps
    · rw [hset]
      exact (updateFdPath_maps t fd p).2
  | mmap result len prot flags fd => exact listChange_mmap t hcall
  | mprotect addr len prot succeeds =>
    cases hrange : callRange addr len with
    | none =>
      refine .same ?_
      simp only [hook, hookWith, hcall, emitMprotectPromotions, hrange, ite_self]
    | some r =>
      by_cases hcalled : succeeds ∧ prot &&& ProtWrite ≠ 0 ∧
          sharedMmapOverlaps t.gate addr len = true ∧ e.muted = false
      · have hhook : hook t e = emitMprotectPromotions t addr len := by
          simp only [hook, hookWith, hcall]
          rw [if_pos hcalled]
        rw [emitMprotectPromotions, hrange] at hhook
        refine .promotion (by rw [hhook]) fun m hm hpromotes => ?_
        rw [hhook]
        exact List.mem_map.mpr ⟨m, List.mem_filter.mpr ⟨hm, hpromotes⟩, rfl⟩
      · refine .same ?_
        simp only [hook, hookWith, hcall]
        rw [if_neg hcalled]
  | munmap addr len succeeds =>
    cases succeeds with
    | false =>
      refine .same ?_
      simp [hook, hookWith, hcall]
    | true =>
      cases hgate : sharedMmapOverlaps t.gate addr len with
      | false =>
        refine .same ?_
        simp [hook, hookWith, hcall, hgate]
      | true =>
        cases hmuted : e.muted with
        | true =>
          refine .same ?_
          simp [hook, hookWith, hcall, hgate, hmuted]
        | false =>
          cases hrange : callRange addr len with
          | none =>
            refine .same ?_
            simp [hook, hookWith, hcall, hgate, hmuted, forgetSharedMmaps, hrange]
          | some r =>
            refine .unmapping hcall hrange ?_
            simp [hook, hookWith, hcall, hgate, hmuted, forgetSharedMmaps, hrange]

/-- **What a call keeps** of a mapping that it does not unmap. -/
theorem Tracked.step (ht : Tracked n r path s) (hstep : step s e = some s')
    (hkept : ∀ addr len r₁, e.call = .munmap addr len true → callRange addr len = some r₁ →
      meets r₁ r = false) : Tracked n r path s' := by
  obtain ⟨hn, m, hm, hrange, hpath, hmarked⟩ := ht
  have hn' : n ≤ s'.events.length := by
    rw [events_step hstep, List.length_append]
    omega
  obtain ⟨-, hs'⟩ := step_eq.mp hstep
  have hshim : s'.shim = (hook s.shim e).1 := by rw [hs']
  refine ⟨hn', ?_⟩
  rw [hshim]
  cases listChange s.shim e with
  | same hlist =>
    rw [hlist]
    exact ⟨m, hm, hrange, hpath, fun hset => (hmarked hset).step hstep⟩
  | mapping hlist hrecorded =>
    rw [hlist]
    obtain ⟨m', hm', hrange', hpath', hflag⟩ := rememberRange_keeps hm
    refine ⟨m', hm', hrange'.trans hrange, hpath'.trans hpath, fun hset => ?_⟩
    rcases hflag with hflag | ⟨hwrite, hsame⟩
    · exact (hmarked (hflag.symm.trans hset)).step hstep
    · obtain ⟨w, hw, hiswrite⟩ := hrecorded hwrite
      rw [← hsame, hpath] at hiswrite
      exact writtenSince_of_hook hn hstep hw hiswrite
  | promotion hlist hrecorded =>
    rw [hlist]
    rename_i r₁
    refine ⟨_, List.mem_map.mpr ⟨m, hm, rfl⟩, ?_⟩
    cases hpromotes : promotes r₁ m with
    | true =>
      refine ⟨hrange, hpath, fun _ => ?_⟩
      exact writtenSince_of_hook hn hstep (hrecorded m hm hpromotes)
        ⟨_, _, _, by rw [promotedWrite, hpath]⟩
    | false => exact ⟨hrange, hpath, fun hset => (hmarked hset).step hstep⟩
  | unmapping hcall hcallRange hlist =>
    rw [hlist]
    refine ⟨m, List.mem_filter.mpr ⟨hm, ?_⟩, hrange, hpath, fun hset => (hmarked hset).step hstep⟩
    rw [hrange, hkept _ _ _ hcall hcallRange]
    rfl

/-! ## 3. The mapping -/

theorem fillFree_isSome {r₁ : Range Nat} : ∀ {gate : List (Range Nat)},
    (∃ slot ∈ gate, slot.start = 0) → ∃ gate', fillFree r₁ gate = some gate' := by
  intro gate
  induction gate with
  | nil => rintro ⟨_, h, -⟩; exact absurd h List.not_mem_nil
  | cons slot rest ih =>
    rintro ⟨free, hmem, hfree⟩
    rw [fillFree]
    split
    · exact ⟨_, rfl⟩
    · rename_i hused
      rcases List.mem_cons.mp hmem with rfl | hmem
      · exact absurd hfree hused
      · obtain ⟨rest', hrest⟩ := ih ⟨free, hmem, hfree⟩
        exact ⟨slot :: rest', by rw [hrest]; rfl⟩

/-- A mapping that the shim can follow: it is heard of, shared, of a descriptor that has a path or
gets one, and there is room in the table of the thunks. -/
structure Followed (s : Session) (e : Event) (result len : Nat) (prot flags : UInt32) (fd : Int32)
    (path : NimStr) : Prop where
  call : e.call = .mmap result len prot flags fd
  heard : e.muted = false
  mapped : result ≠ MapFailed
  shared : flags &&& MapShared ≠ 0
  file : 0 ≤ fd ∧ flags &&& MapAnon = 0 ∧ shmNameForFd s.shim fd = []
  named : pathForFd (recoverMapped e.answers s.shim prot fd).1 fd = path
  path_ne : path ≠ []
  room : ∃ slot ∈ s.shim.gate, slot.start = 0

section Followed

variable {result len : Nat} {prot flags : UInt32} {fd : Int32}

theorem Followed.hook_eq (h : Followed s e result len prot flags fd path) :
    hook s.shim e =
      (rememberSharedMmap (recoverMapped e.answers s.shim prot fd).1 result len prot path,
        (recoverMapped e.answers s.shim prot fd).2 ++
          if prot &&& ProtWrite ≠ 0 then [mappedWrite path fd] else []) := by
  have henters : entersMmap s.shim prot flags fd = true := by
    simp [entersMmap, h.file.1, h.shared]
  have hpath : pathForFd (recoverMapped e.answers s.shim prot fd).1 fd ≠ [] := by
    rw [h.named]
    exact h.path_ne
  simp only [hook, hookWith, h.call]
  rw [if_neg (by simp [h.heard, henters]),
    recordMmap_shared e.answers s.shim len prot h.mapped h.file.1 h.file.2.1 h.file.2.2 h.shared
      hpath, h.named]

/-- **The first step**: the mapping is in the list, new. -/
theorem Followed.tracked (h : Followed s e result len prot flags fd path) (hinv : Inv s)
    (hseen : Seen s e) (hstep : SharedMappings.step s e = some s') :
    OnPages result len ∧ Tracked s.events.length ⟨result, result + len⟩ path s' := by
  obtain ⟨hallows, hs'⟩ := step_eq.mp hstep
  obtain ⟨hpages, -⟩ := allows_mmap h.call hallows h.mapped
  refine ⟨hpages, ?_, ?_⟩
  · rw [events_step hstep, List.length_append]
    omega
  -- no entry can have the range of the call: its memory would be in use
  have hnew : ∀ m ∈ s.shim.sharedMmaps, m.range ≠ ⟨result, result + len⟩ := by
    intro m hm hsame
    obtain ⟨l, file, hon, hstop, hpiece, -⟩ := hinv.maps.placed m hm
    rw [hsame] at hstop hpiece
    obtain rfl : len = l := Nat.add_left_cancel hstop
    simp only [Seen, h.call] at hseen
    have hapart := hseen h.mapped _ hpiece
    have hpos := Nat.lt_of_lt_of_le (Nat.pos_of_ne_zero hpages.2.2.1) (le_wholePages len)
    simp [meets, rangesIntersect, pages] at hapart
    omega
  obtain ⟨gate, hgate⟩ : ∃ gate, sharedMmapAdd (recoverMapped e.answers s.shim prot fd).1.gate
      result len = some gate := by
    have hsame : (recoverMapped e.answers s.shim prot fd).1.gate = s.shim.gate := by
      rcases recoverMapped_cases e.answers s.shim prot fd with hsame | ⟨p, -, -, hset⟩
      · rw [hsame]
      · rw [hset]
        exact (updateFdPath_maps s.shim fd p).1
    rw [sharedMmapAdd, hpages.rangeFromAddrLen, hsame]
    dsimp only
    split
    · exact ⟨_, rfl⟩
    · exact fillFree_isSome h.room
  have hshim : s'.shim = (hook s.shim e).1 := by rw [hs']
  have hmem : ⟨⟨result, result + len⟩, path, prot &&& ProtWrite != 0⟩ ∈ s'.shim.sharedMmaps := by
    rw [hshim, h.hook_eq]
    dsimp only
    rw [rememberSharedMmap_added hpages prot h.path_ne hgate]
    dsimp only
    rw [recoverMapped_maps]
    exact mem_rememberRange_new hnew
  refine ⟨_, hmem, rfl, rfl, fun hwrite => ?_⟩
  have hwritten : IsWrite path (mappedWrite path fd) := ⟨_, _, _, rfl⟩
  refine writtenSince_of_hook (Nat.le_refl _) hstep ?_ hwritten
  rw [h.hook_eq, if_pos (by simpa using hwrite)]
  exact List.mem_append_right _ (List.mem_singleton.mpr rfl)

/-- A mapping that is followed and not touched by a `munmap` stays in the list. -/
theorem Tracked.run {events : List Event} (hpages : OnPages result len)
    (ht : Tracked n ⟨result, result + len⟩ path s)
    (hwhole : ∀ x ∈ events, ∀ addr l, x.call = .munmap addr l true →
      meets (pages addr l) (pages result len) = false)
    (hrun : GuardedRuns.run SharedMappings.step s events = some s') :
    Tracked n ⟨result, result + len⟩ path s' := by
  refine GuardedRuns.invariant_of_meets ?_ events ht
    (GuardedRuns.Meets.of_forall s fun x hx _ => hwhole x hx) hrun
  intro t x t' ht hwhole hstep
  refine ht.step hstep fun addr l r₁ hcall hcallRange => ?_
  obtain ⟨hallows, -⟩ := step_eq.mp hstep
  simp only [Session.allows, hcall, Bool.not_true, Bool.false_or, decide_eq_true_eq] at hallows
  rw [hallows.callRange] at hcallRange
  obtain rfl := Option.some.inj hcallRange
  rw [← meets_pages hallows.1 hpages.1]
  exact hwhole addr l hcall

/-- An `mprotect` that makes part of it writable is recorded, now or before. -/
theorem Tracked.promoted (ht : Tracked n ⟨result, result + len⟩ path s) (hinv : Inv s)
    (hpages : OnPages result len) {addr l : Nat} {p : UInt32}
    (hcall : e.call = .mprotect addr l p true) (hheard : e.muted = false)
    (hwrite : p &&& ProtWrite ≠ 0) (hmeets : meets (pages addr l) (pages result len) = true)
    (hstep : SharedMappings.step s e = some s') : WrittenSince n path s' := by
  obtain ⟨hn, m, hm, hrange, hpath, hmarked⟩ := ht
  cases hflag : m.mprotectWriteEmitted with
  | true => exact (hmarked hflag).step hstep
  | false =>
    obtain ⟨hallows, -⟩ := step_eq.mp hstep
    simp only [Session.allows, hcall, Bool.not_true, Bool.false_or, decide_eq_true_eq] at hallows
    rw [meets_pages hallows.1 hpages.1, ← hrange] at hmeets
    have hgate := hinv.maps.overlaps hallows hm hmeets
    have hwritten : IsWrite path (promotedWrite path) := ⟨_, _, _, rfl⟩
    refine writtenSince_of_hook hn hstep ?_ hwritten
    simp only [hook, hookWith, hcall]
    rw [if_pos ⟨trivial, hwrite, hgate, hheard⟩, emitMprotectPromotions, hallows.callRange]
    refine List.mem_map.mpr ⟨m, List.mem_filter.mpr ⟨hm, ?_⟩, by rw [hpath]⟩
    rw [promotes, hflag, hmeets]
    rfl

/-- The mapping can be written to: it was mapped so, or a later `mprotect` made it so in a part. -/
def BecomesWritable (result len : Nat) (prot : UInt32) (after : List Event) : Prop :=
  prot &&& ProtWrite ≠ 0 ∨ ∃ x ∈ after, x.muted = false ∧ ∃ addr l p,
    x.call = .mprotect addr l p true ∧ p &&& ProtWrite ≠ 0 ∧
      meets (pages addr l) (pages result len) = true

/-- **A shared file mapping that becomes writable is recorded as a write**, from the call that
makes it on, as long as no part of it was unmapped. -/
theorem promotion_recorded (inherited : Int32 → Option File) (before after : List Event)
    {s₀ s₁ s₂ : Session} (hbefore : GuardedRuns.run step (start inherited) before = some s₀)
    (hmap : step s₀ e = some s₁) (hafter : GuardedRuns.run step s₁ after = some s₂)
    (hseen : GuardedRuns.Meets step Seen (start inherited) (before ++ e :: after))
    (hfollowed : Followed s₀ e result len prot flags fd path)
    (hwhole : ∀ x ∈ after, ∀ addr l, x.call = .munmap addr l true →
      meets (pages addr l) (pages result len) = false)
    (hwritable : BecomesWritable result len prot after) :
    WrittenSince s₀.events.length path s₂ := by
  obtain ⟨hseen₀, hrest⟩ := hseen.split hbefore
  have hinv₀ := inv_of_run hbefore hseen₀
  obtain ⟨hpages, ht₁⟩ := hfollowed.tracked hinv₀ hrest.1 hmap
  have hkeep : ∀ {t : Session} {events : List Event}, WrittenSince s₀.events.length path t →
      GuardedRuns.run step t events = some s₂ → WrittenSince s₀.events.length path s₂ :=
    fun hw hrun => GuardedRuns.invariant (fun hw hstep => hw.step hstep) _ hw hrun
  rcases hwritable with hwrite | ⟨x, hx, hheard, addr, l, p, hcall, hwrite, hmeets⟩
  · refine hkeep ?_ hafter
    have hwritten : IsWrite path (mappedWrite path fd) := ⟨_, _, _, rfl⟩
    refine writtenSince_of_hook (Nat.le_refl _) hmap ?_ hwritten
    rw [hfollowed.hook_eq, if_pos hwrite]
    exact List.mem_append_right _ (List.mem_singleton.mpr rfl)
  · obtain ⟨front, back, rfl⟩ := List.append_of_mem hx
    obtain ⟨t, hfront, hback⟩ := GuardedRuns.run_append.mp hafter
    obtain ⟨t', hstep, hback⟩ := GuardedRuns.run_cons.mp hback
    obtain ⟨hseen₁, -⟩ := (hrest.2 s₁ hmap).split hfront
    have hinv : Inv t := GuardedRuns.invariant_of_meets (fun h hseen hstep => h.step hseen hstep)
      front (hinv₀.step hrest.1 hmap) hseen₁ hfront
    have ht := ht₁.run hpages
      (fun y hy => hwhole y (List.mem_append_left _ hy)) hfront
    exact hkeep (ht.promoted hinv hpages hcall hheard hwrite hmeets hstep) hback

end Followed

end Tracking

theorem linker_followed :
    Followed linkerOpened linkerMap 0x100000000 100 1 1 5 (str "/out/a") where
  call := rfl
  heard := rfl
  mapped := by decide
  shared := by decide
  file := ⟨by decide, by decide, rfl⟩
  named := by decide
  path_ne := by decide
  room := ⟨⟨0, 0⟩, List.mem_replicate.mpr ⟨by decide, rfl⟩, rfl⟩

theorem promotion_recorded_linker : ∃ s₁ s₂, step linkerOpened linkerMap = some s₁ ∧
    GuardedRuns.run step s₁ [linkerProtect] = some s₂ ∧ WrittenSince 0 (str "/out/a") s₂ := by
  obtain ⟨s₁, hmap⟩ := linkerMap_step
  obtain ⟨s₂, hprotect⟩ := linkerProtect_step s₁
  have hopen : GuardedRuns.run step (start fun _ => none) [linkerOpen] = some linkerOpened :=
    GuardedRuns.run_cons.mpr ⟨_, linkerOpen_step, rfl⟩
  exact ⟨s₁, s₂, hmap, hprotect, promotion_recorded (fun _ => none) [linkerOpen] [linkerProtect]
    hopen hmap hprotect linker_seen linker_followed (by simp [linkerProtect])
    (.inr ⟨linkerProtect, List.mem_singleton.mpr rfl, rfl, 0x100000000, 16384, 3, rfl, by decide,
      by decide⟩)⟩

end IoMon.SharedMappings
