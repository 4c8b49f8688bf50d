import HttkWorkflow.ChildLabels
import Mathlib.Tactic.Linarith

/-!
# What is kept of a program's output

A supervised program may write without end, and what is kept of it is bounded
twice over. `Capture` keeps the end of one output stream, cut to a number of
bytes, and `DiagnosticLog` keeps the first and the last of the diagnostics and
counts those in between.

Both are fed piece by piece, and what they keep must not depend on where the
pieces end: it is a function of the concatenation. `Capture.Holds` and
`DiagnosticLog.Holds` say which one, and every call keeps them.
-/

/-! ## The end of a stream -/

/-- **`_Capture`**: the end of one output stream. -/
structure Capture (β : Type) where
  limit : ℕ
  chunks : List (List β)
  retained : ℕ
  total : ℕ
  truncated : Bool
deriving DecidableEq, Repr

namespace Capture

variable {β : Type}

/-- `__init__`. -/
def new (limit : ℤ) : Capture β := ⟨(max 0 limit).toNat, [], 0, 0, false⟩

/-- The loop of `add` that drops what is over the limit: the chunks that are left and how many bytes
they have. Nothing is returned where the oldest chunk of none is looked at. -/
def trim (limit : ℕ) : List (List β) → ℕ → Option (List (List β) × ℕ)
  | [], retained => if retained > limit then none else some ([], retained)
  | oldest :: rest, retained =>
    if retained > limit then
      if oldest.length ≤ retained - limit then trim limit rest (retained - oldest.length)
      -- the limit is met exactly, and the loop ends
      else some (oldest.drop (retained - limit) :: rest, retained - (retained - limit))
    else some (oldest :: rest, retained)

def add (c : Capture β) (chunk : List β) : Option (Capture β) :=
  if chunk.isEmpty = true then some c
  else if c.limit = 0 then some { c with total := c.total + chunk.length, truncated := true }
  else
    (trim c.limit (c.chunks ++ [chunk]) (c.retained + chunk.length)).map fun (chunks, retained) =>
      { c with
        chunks := chunks
        retained := retained
        total := c.total + chunk.length
        truncated := c.truncated || c.retained + chunk.length > c.limit }

def value (c : Capture β) : List β := c.chunks.flatten

/-- Calls of `add`, one after the other. -/
def addAll (c : Capture β) : List (List β) → Option (Capture β)
  | [] => some c
  | chunk :: chunks => (add c chunk).bind fun c => addAll c chunks

/-- **A capture of some bytes**: it has their end, as much of it as the limit allows. -/
structure Holds (c : Capture β) (limit : ℕ) (bytes : List β) : Prop where
  limited : c.limit = limit
  retained : c.retained = c.value.length
  total : c.total = bytes.length
  value : c.value = bytes.drop (bytes.length - limit)
  truncated : c.truncated = true ↔ limit < bytes.length

theorem holds_new (limit : ℤ) : Holds (new limit : Capture β) limit.toNat [] :=
  ⟨by show (max 0 limit).toNat = limit.toNat; omega, rfl, rfl, by simp [new, value], by simp [new]⟩

theorem trim_eq {limit : ℕ} {chunks : List (List β)} {retained : ℕ} (h : retained = chunks.flatten.length) :
    ∃ left, trim limit chunks retained = some (left, left.flatten.length) ∧
      left.flatten = chunks.flatten.drop (retained - limit) := by
  induction chunks generalizing retained with
  | nil =>
    have hzero : retained = 0 := h
    refine ⟨[], ?_, by simp⟩
    rw [trim, if_neg (by omega), hzero]
    rfl
  | cons oldest rest ih =>
    have hlength : retained = oldest.length + rest.flatten.length := by
      rw [h, List.flatten_cons, List.length_append]
    rw [trim]
    split_ifs with hover hwhole
    · -- the whole chunk is over the limit
      obtain ⟨left, htrim, hleft⟩ := ih (by omega : retained - oldest.length = rest.flatten.length)
      refine ⟨left, htrim, ?_⟩
      have hsplit : retained - limit = oldest.length + (retained - oldest.length - limit) := by omega
      rw [hleft, List.flatten_cons, hsplit, List.drop_length_add_append]
    · refine ⟨oldest.drop (retained - limit) :: rest, ?_, ?_⟩
      · rw [List.flatten_cons, List.length_append, List.length_drop]
        congr 2
        omega
      · rw [List.flatten_cons, List.flatten_cons, List.drop_append_of_le_length (by omega)]
    · exact ⟨_, by rw [h], by rw [Nat.sub_eq_zero_of_le (by omega), List.drop_zero]⟩

variable {bytes : List β} {c : Capture β}

theorem holds_add {limit : ℕ} (h : Holds c limit bytes) (chunk : List β) :
    ∃ c', add c chunk = some c' ∧ Holds c' limit (bytes ++ chunk) := by
  unfold add
  cases hchunk : chunk.isEmpty with
  | true =>
    rw [List.isEmpty_iff.mp hchunk, List.append_nil]
    exact ⟨c, rfl, h⟩
  | false =>
    have hpos : 0 < chunk.length := List.length_pos_iff.mpr (by simpa using hchunk)
    have hlength : (bytes ++ chunk).length = bytes.length + chunk.length := List.length_append
    have hretained : c.retained = bytes.length - (bytes.length - limit) := by
      rw [h.retained, h.value, List.length_drop]
    simp only [Bool.false_eq_true, if_false]
    split_ifs with hzero
    · -- nothing is ever kept
      have hlimit : limit = 0 := h.limited ▸ hzero
      subst hlimit
      refine ⟨_, rfl, h.limited, h.retained, ?_, ?_, ?_⟩
      · show c.total + chunk.length = _
        rw [h.total, hlength]
      · show c.value = _
        rw [h.value, Nat.sub_zero, Nat.sub_zero, List.drop_length, List.drop_length]
      · show true = true ↔ _
        rw [hlength]
        exact ⟨fun _ => by omega, fun _ => rfl⟩
    · have hbytes : c.retained + chunk.length = (c.chunks ++ [chunk]).flatten.length := by
        rw [h.retained, List.flatten_append, List.length_append]
        simp [value]
      obtain ⟨left, htrim, hleft⟩ := @trim_eq _ c.limit _ _ hbytes
      rw [htrim]
      refine ⟨_, rfl, h.limited, rfl, ?_, ?_, ?_⟩
      · show c.total + chunk.length = _
        rw [h.total, hlength]
      · -- what was dropped before and what is dropped now are dropped at once
        show left.flatten = _
        have hflatten : (c.chunks ++ [chunk]).flatten = (bytes ++ chunk).drop (bytes.length - limit) := by
          rw [List.flatten_append, List.drop_append_of_le_length (by omega), ← h.value]
          simp [value]
        rw [hleft, hflatten, List.drop_drop, hretained, h.limited, hlength]
        congr 1
        omega
      · show (c.truncated || decide (c.retained + chunk.length > c.limit)) = true ↔ _
        rw [Bool.or_eq_true, h.truncated, decide_eq_true_iff, hretained, h.limited, hlength]
        omega

theorem holds_addAll {limit : ℕ} (h : Holds c limit bytes)
    (chunks : List (List β)) : ∃ c', addAll c chunks = some c' ∧ Holds c' limit (bytes ++ chunks.flatten) := by
  induction chunks generalizing c bytes with
  | nil => exact ⟨c, rfl, by rwa [List.flatten_nil, List.append_nil]⟩
  | cons chunk chunks ih =>
    obtain ⟨next, hnext, hholds⟩ := holds_add h chunk
    obtain ⟨c', hc', hall⟩ := ih hholds
    rw [List.append_assoc, ← List.flatten_cons] at hall
    exact ⟨c', by rw [addAll, hnext]; exact hc', hall⟩

end Capture

/-! ## The first and the last diagnostics -/

inductive DiagnosticSeverity where
  | info
  | warning
  | error
  | fatal
deriving DecidableEq, Repr

structure Diagnostic where
  code : PyStr
  severity : DiagnosticSeverity
  summary : PyStr
  source : PyStr
  evidence : Option PyStr := none
  stop : Bool := false
deriving DecidableEq, Repr

/-- **`_DiagnosticLog`**: the first and the last diagnostics. -/
structure DiagnosticLog where
  headLimit : ℕ
  /-- `_tail_limit`, which is the `maxlen` of `_tail`. -/
  tailLimit : ℕ
  head : List Diagnostic
  tail : List Diagnostic
  dropped : ℕ

namespace DiagnosticLog

/-- `max(1, limit // 2)`. -/
def headLimitOf (limit : ℤ) : ℕ := (max 1 (limit / 2)).toNat

/-- `max(1, limit - self._head_limit)`. -/
def tailLimitOf (limit : ℤ) : ℕ := (max 1 (limit - headLimitOf limit)).toNat

/-- `__init__`. -/
def new (limit : ℤ) : DiagnosticLog := ⟨headLimitOf limit, tailLimitOf limit, [], [], 0⟩

/-- `append` of a `deque` with a `maxlen`: a full one loses its first member. -/
def pushBounded {α : Type} (maxlen : ℕ) (queue : List α) (item : α) : List α :=
  if queue.length = maxlen then queue.drop 1 ++ [item] else queue ++ [item]

def append (log : DiagnosticLog) (item : Diagnostic) : DiagnosticLog :=
  if log.head.length < log.headLimit then { log with head := log.head ++ [item] }
  else
    { log with
      dropped := if log.tail.length = log.tailLimit then log.dropped + 1 else log.dropped
      tail := pushBounded log.tailLimit log.tail item }

/-- **`extend`**, of which `add` is the case of one. -/
def extend (log : DiagnosticLog) (items : List Diagnostic) : DiagnosticLog := items.foldl append log

/-- `extend`, call after call. -/
def extendAll (log : DiagnosticLog) (calls : List (List Diagnostic)) : DiagnosticLog := calls.foldl extend log

def marker (dropped : ℕ) : Diagnostic where
  code := "diagnostics_truncated"
  severity := .warning
  summary := PyStr.decimal dropped ++ " intermediate diagnostics were dropped"
  source := "supervisor"

def values (log : DiagnosticLog) : List Diagnostic :=
  if log.dropped = 0 then log.head ++ log.tail else log.head ++ marker log.dropped :: log.tail

/-- The last members of a list, as many as there may be. -/
def lastOf {α : Type} (n : ℕ) (items : List α) : List α := items.drop (items.length - n)

theorem length_lastOf {α : Type} (n : ℕ) (items : List α) : (lastOf n items).length = min n items.length := by
  unfold lastOf
  rw [List.length_drop]
  omega

theorem pushBounded_lastOf {α : Type} {maxlen : ℕ} (h : 0 < maxlen) (items : List α) (item : α) :
    pushBounded maxlen (lastOf maxlen items) item = lastOf maxlen (items ++ [item]) := by
  have hlength := length_lastOf maxlen items
  unfold pushBounded
  split_ifs with hfull
  · unfold lastOf
    rw [List.drop_drop, List.length_append, List.length_singleton,
      List.drop_append_of_le_length (by omega : items.length + 1 - maxlen ≤ items.length)]
    congr 2
    omega
  · unfold lastOf
    rw [List.length_append, List.length_singleton, Nat.sub_eq_zero_of_le (by omega : items.length ≤ maxlen),
      Nat.sub_eq_zero_of_le (by omega : items.length + 1 ≤ maxlen)]
    rfl

/-- **A log of some diagnostics**: the first of them, the last of the others, and how many are in neither. -/
structure Holds (log : DiagnosticLog) (limit : ℤ) (items : List Diagnostic) : Prop where
  headLimit : log.headLimit = headLimitOf limit
  tailLimit : log.tailLimit = tailLimitOf limit
  head : log.head = items.take (headLimitOf limit)
  tail : log.tail = lastOf (tailLimitOf limit) (items.drop (headLimitOf limit))
  dropped : log.head.length + log.dropped + log.tail.length = items.length

theorem tailLimitOf_pos (limit : ℤ) : 0 < tailLimitOf limit := by unfold tailLimitOf; omega

theorem holds_new (limit : ℤ) : Holds (new limit) limit [] :=
  ⟨rfl, rfl, by simp [new], by simp [new, lastOf], rfl⟩

variable {items : List Diagnostic} {log : DiagnosticLog}

variable {limit : ℤ}

theorem holds_append (h : Holds log limit items)
    (item : Diagnostic) : Holds (log.append item) limit (items ++ [item]) := by
  have hhead : log.head.length = min (headLimitOf limit) items.length := by rw [h.head, List.length_take]
  have htail : log.tail.length = min (tailLimitOf limit) (items.length - headLimitOf limit) := by
    rw [h.tail, length_lastOf, List.length_drop]
  have hcount := h.dropped
  have hlimit := h.headLimit
  unfold append
  by_cases hroom : log.head.length < log.headLimit
  · rw [if_pos hroom]
    have hshort : items.length < headLimitOf limit := by omega
    refine ⟨h.headLimit, h.tailLimit, ?_, ?_, ?_⟩
    · show log.head ++ [item] = _
      rw [h.head, List.take_of_length_le (by omega), List.take_of_length_le]
      rw [List.length_append, List.length_singleton]
      omega
    · show log.tail = _
      rw [h.tail, List.drop_of_length_le (by omega), List.drop_of_length_le]
      rw [List.length_append, List.length_singleton]
      omega
    · show (log.head ++ [item]).length + log.dropped + log.tail.length = _
      rw [List.length_append, List.length_append, List.length_singleton]
      omega
  · rw [if_neg hroom]
    have hlong : headLimitOf limit ≤ items.length := by omega
    have hpushed := pushBounded_lastOf (tailLimitOf_pos limit) (items.drop (headLimitOf limit)) item
    rw [← List.drop_append_of_le_length hlong] at hpushed
    have hnewtail : pushBounded log.tailLimit log.tail item
        = lastOf (tailLimitOf limit) ((items ++ [item]).drop (headLimitOf limit)) := by
      rw [h.tailLimit, h.tail, hpushed]
    refine ⟨h.headLimit, h.tailLimit, ?_, hnewtail, ?_⟩
    · show log.head = _
      rw [h.head, List.take_append_of_le_length hlong]
    · -- a full tail drops one for the one it takes
      show log.head.length + (if log.tail.length = log.tailLimit then log.dropped + 1 else log.dropped)
        + (pushBounded log.tailLimit log.tail item).length = _
      rw [hnewtail, length_lastOf, List.length_drop, List.length_append, List.length_singleton, h.tailLimit]
      split_ifs <;> omega

theorem holds_extend (h : Holds log limit items)
    (more : List Diagnostic) : Holds (log.extend more) limit (items ++ more) := by
  unfold extend
  induction more generalizing log items with
  | nil => rwa [List.append_nil]
  | cons item more ih =>
    have hnext := ih (holds_append h item)
    rwa [List.append_assoc, List.singleton_append] at hnext

theorem holds_extendAll (h : Holds log limit items)
    (calls : List (List Diagnostic)) : Holds (log.extendAll calls) limit (items ++ calls.flatten) := by
  unfold extendAll
  induction calls generalizing log items with
  | nil => rwa [List.flatten_nil, List.append_nil]
  | cons call calls ih =>
    have hnext := ih (holds_extend h call)
    rwa [List.append_assoc, ← List.flatten_cons] at hnext

end DiagnosticLog

/-! ## Both are bounded and exact -/

/-- **What is kept of a program's output.** A capture has exactly the end of the stream that its limit
allows, has counted all of it, and is truncated exactly if something is missing; a log has the first
and the last diagnostics its limits allow, in order, and where others came between them, one
diagnostic in their place that says how many. -/
theorem captures_bounded {β : Type} :
    (∀ (limit : ℤ) (chunks : List (List β)), ∃ c, Capture.addAll (Capture.new limit) chunks = some c ∧
      c.value = chunks.flatten.drop (chunks.flatten.length - limit.toNat) ∧
      c.value.length = min chunks.flatten.length limit.toNat ∧
      c.total = chunks.flatten.length ∧
      (c.truncated = true ↔ c.value.length < c.total)) ∧
    ∀ (limit : ℤ) (calls : List (List Diagnostic)),
      let log := (DiagnosticLog.new limit).extendAll calls
      let items := calls.flatten
      let first := items.take (DiagnosticLog.headLimitOf limit)
      let last := DiagnosticLog.lastOf (DiagnosticLog.tailLimitOf limit)
        (items.drop (DiagnosticLog.headLimitOf limit))
      first.length + log.dropped + last.length = items.length ∧
      log.values = first ++ (if log.dropped = 0 then [] else [DiagnosticLog.marker log.dropped]) ++ last := by
  constructor
  · intro limit chunks
    obtain ⟨c, hc, h⟩ := Capture.holds_addAll (Capture.holds_new limit) chunks
    rw [List.nil_append] at h
    have hlength : c.value.length = min chunks.flatten.length limit.toNat := by
      rw [h.value, List.length_drop]
      omega
    refine ⟨c, hc, h.value, hlength, h.total, ?_⟩
    rw [h.truncated, hlength, h.total]
    omega
  · intro limit calls
    have h := DiagnosticLog.holds_extendAll (DiagnosticLog.holds_new limit) calls
    rw [List.nil_append] at h
    refine ⟨h.head ▸ h.tail ▸ h.dropped, ?_⟩
    show DiagnosticLog.values _ = _
    rw [← h.head, ← h.tail]
    unfold DiagnosticLog.values
    split_ifs with hnone
    · rw [List.append_nil]
    · rw [List.append_assoc, List.singleton_append]
