/-
# Detail tokens and process identities

`writer.nim` carries identity metadata as space-separated `key=value` tokens inside the free-form
`detail` of a record: the kernel start time of a process, the run id of the invocation, the
nonce of a connection.  This file is the token reader and, on top of it, the two predicates
every completeness check of the merge is made of: which processes of the record list were
monitored, and whether a given child or peer is one of them.

A token whose key occurs twice is ambiguous evidence; the readers that feed trust decisions
refuse it instead of taking the first one.
-/
import IoMon.Types

namespace IoMon

open ByteText MonitorRecordKind

/-! ## 1. Keys -/

def StartTimeToken : NimStr := str "start"
def ChildStartTimeToken : NimStr := str "childstart"
def PeerStartTimeToken : NimStr := str "peerstart"
def PeerUidToken : NimStr := str "peeruid"
def RunIdToken : NimStr := str "run"
def NonceToken : NimStr := str "nonce"
def ChanToken : NimStr := str "chan"
def RoleToken : NimStr := str "role"
def ExecStatusToken : NimStr := str "execstatus"

/-! ## 2. Reading tokens -/

def detailHasTokenSyntax (detail : NimStr) : Bool := detail.contains 61

/-- The token is `needle` followed by at least one byte. -/
def tokenStartsWith (needle tok : NimStr) : Bool :=
  decide (needle.length < tok.length) && needle.isPrefixOf tok

/-- The tokens of `detail` that give `key` a value, in order. -/
def matchingTokens (detail key : NimStr) : List NimStr :=
  if detailHasTokenSyntax detail then
    (tokens detail).filter (tokenStartsWith (key ++ str "="))
  else []

/-- The value of the first `key=value` token, empty when there is none. -/
def detailToken (detail key : NimStr) : NimStr :=
  match matchingTokens detail key with
  | [] => []
  | tok :: _ => tok.drop (key.length + 1)

/-- More than one `key=value` token. -/
def detailTokenDuplicate (detail key : NimStr) : Bool :=
  decide (2 ≤ (matchingTokens detail key).length)

/-- The value of a token that occurs once. -/
def trustedDetailToken (detail key : NimStr) : NimStr :=
  if detailTokenDuplicate detail key then [] else detailToken detail key

def hasDuplicateIdentityToken (detail : NimStr) : Bool :=
  [RunIdToken, StartTimeToken, ChildStartTimeToken, PeerStartTimeToken, NonceToken].any
    (detailTokenDuplicate detail)

/-! ## 3. The reader under appending

The shim grows a detail by appending ` key=value`, so what a reader sees in a stamped detail is
what it saw before, followed by what the stamp adds.  The `=` test in front of the tokeniser is
a shortcut: a detail without `=` has no matching token anyway. -/

theorem mem_of_mem_tokensFrom {tok : NimStr} {c : UInt8} (s cur : NimStr)
    (ht : tok ∈ tokensFrom cur s) (hc : c ∈ tok) : c ∈ cur ∨ c ∈ s := by
  induction s generalizing cur with
  | nil =>
    unfold tokensFrom at ht
    split at ht
    · exact absurd ht (by simp)
    · rw [List.mem_singleton] at ht
      exact .inl (ht ▸ hc)
  | cons d s ih =>
    unfold tokensFrom at ht
    split at ht
    · split at ht
      · rcases ih [] ht with h | h
        · exact absurd h (by simp)
        · exact .inr (List.mem_cons_of_mem _ h)
      · rcases List.mem_cons.mp ht with ht | ht
        · exact .inl (ht ▸ hc)
        · rcases ih [] ht with h | h
          · exact absurd h (by simp)
          · exact .inr (List.mem_cons_of_mem _ h)
    · rcases ih (cur ++ [d]) ht with h | h
      · rcases List.mem_append.mp h with h | h
        · exact .inl h
        · rw [List.mem_singleton] at h
          exact .inr (h ▸ List.mem_cons_self ..)
      · exact .inr (List.mem_cons_of_mem _ h)

/-- **The shortcut is sound.** -/
theorem matchingTokens_eq_filter (detail key : NimStr) :
    matchingTokens detail key = (tokens detail).filter (tokenStartsWith (key ++ str "=")) := by
  unfold matchingTokens
  split
  · rfl
  · rename_i hno
    symm
    rw [List.filter_eq_nil_iff]
    intro tok htok hstart
    apply hno
    obtain ⟨rest, hrest⟩ : key ++ str "=" <+: tok := by
      simp only [tokenStartsWith, Bool.and_eq_true] at hstart
      exact List.isPrefixOf_iff_prefix.mp hstart.2
    have heq : (61 : UInt8) ∈ tok := by
      rw [← hrest]
      simp [str, String.utf8EncodeChar]
    rcases mem_of_mem_tokensFrom detail [] htok heq with h | h
    · exact absurd h (by simp)
    · simpa [detailHasTokenSyntax] using h

theorem matchingTokens_append_space {sp : UInt8} (hsp : isSpace sp = true)
    (d t key : NimStr) :
    matchingTokens (d ++ sp :: t) key = matchingTokens d key ++ matchingTokens t key := by
  simp only [matchingTokens_eq_filter, tokens_append_space hsp, List.filter_append]

/-! ## 4. Monitored processes -/

/-- A process is `(pid, kernel start time)`; the start time is empty when the producer could not
obtain it. -/
abbrev ProcIdentity := UInt64 × NimStr

/-- The identities and the bare pids of the processes that emitted an unambiguous
process-start. -/
structure MonitoredProcs where
  idents : List ProcIdentity
  pids : List UInt64
  deriving DecidableEq, Repr

/-- The process-start records an identity is taken from. -/
def identifiedStarts (records : List MonitorRecord) : List MonitorRecord :=
  records.filter fun r => r.kind == mrProcessStart && !hasDuplicateIdentityToken r.detail

def processStartIdentities (records : List MonitorRecord) : MonitoredProcs where
  idents := (identifiedStarts records).map fun r =>
    (r.osPid, trustedDetailToken r.detail StartTimeToken)
  pids := (identifiedStarts records).map (·.osPid)

/-- With a known start time the identity has to match exactly, without one the pid is enough. -/
def childIsMonitored (childPid : UInt64) (childStart : NimStr) (m : MonitoredProcs) : Bool :=
  if 0 < childStart.length then m.idents.contains (childPid, childStart)
  else m.pids.contains childPid

/-- Every pid with a process-start record, ambiguous or not. -/
def monitoredStartPids (records : List MonitorRecord) : List UInt64 :=
  (records.filter fun r => r.kind == mrProcessStart).map (·.osPid)

/-- **What a positive answer rests on**: some process-start record of that pid, with that start
time if one was given. -/
theorem childIsMonitored_iff {records : List MonitorRecord} {pid : UInt64} {start : NimStr} :
    childIsMonitored pid start (processStartIdentities records) = true ↔
      ∃ r ∈ records, r.kind = mrProcessStart ∧ hasDuplicateIdentityToken r.detail = false ∧
        r.osPid = pid ∧ (start ≠ [] → trustedDetailToken r.detail StartTimeToken = start) := by
  unfold childIsMonitored processStartIdentities identifiedStarts
  by_cases hs : start = []
  · subst hs
    simp only [List.length_nil, Nat.lt_irrefl, if_false, List.contains_iff_mem, List.mem_map,
      List.mem_filter, Bool.and_eq_true, beq_iff_eq, Bool.not_eq_true']
    constructor
    · rintro ⟨r, ⟨hr, hk, hd⟩, hp⟩
      exact ⟨r, hr, hk, hd, hp, fun h => absurd rfl h⟩
    · rintro ⟨r, hr, hk, hd, hp, _⟩
      exact ⟨r, ⟨hr, hk, hd⟩, hp⟩
  · have hpos : 0 < start.length := List.length_pos_iff.mpr hs
    simp only [hpos, if_true, List.contains_iff_mem, List.mem_map, List.mem_filter,
      Bool.and_eq_true, beq_iff_eq, Bool.not_eq_true', Prod.mk.injEq]
    constructor
    · rintro ⟨r, ⟨hr, hk, hd⟩, hp, ht⟩
      exact ⟨r, hr, hk, hd, hp, fun _ => ht⟩
    · rintro ⟨r, hr, hk, hd, hp, ht⟩
      exact ⟨r, ⟨hr, hk, hd⟩, hp, ht hs⟩

end IoMon
