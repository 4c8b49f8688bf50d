import HttkWorkflow.LineSplitting
import Mathlib.Data.List.TakeWhile

/-!
# The responses of an executable collector

An executable collector writes one line for each record it was given.
`drain_stdout` reads what it writes 64 KiB at a time and finds the lines
itself, so that a line is never kept beyond what is allowed: a line that is
too long is a breach, and so is a further line, unless it is blank.

What the chunks are does not matter. The lines of the whole output are taken
one after the other (`drainStdout_eq`), and where none of them is a breach
the responses are the first lines of the output, one for each record if there
are as many (`drained_eq_take`).
-/

open LineSplitting

/-- `MAX_COLLECT_RESPONSE_LINE_BYTES`. -/
def maxResponseLine : ℕ := 1024 * 1024

/-- **Why a collector is stopped.** -/
inductive StreamBreach where
  /-- A line of its output is too long. -/
  | responseLine
  /-- It wrote more lines than it was given records. -/
  | surplusLines
  /-- What it wrote to `stderr` is too long, in all. -/
  | stderrTotal
  /-- A line of `stderr` is too long. -/
  | stderrLine
  /-- It was not done at the deadline. -/
  | timedOut
deriving DecidableEq

def newlineByte : ℕ := 10

/-- `line.strip()` is not empty. -/
def nonblank (line : List ℕ) : Bool := line.any fun b => !(b == 0x20 || (0x09 ≤ b && b ≤ 0x0D))

/-- **A line that is complete.** -/
def takeLine (wanted : ℕ) (responses : List (List ℕ)) (line : List ℕ) : Except StreamBreach (List (List ℕ)) :=
  if maxResponseLine < line.length then .error .responseLine
  else if responses.length < wanted then .ok (responses ++ [line])
  else if nonblank line then .error .surplusLines
  else .ok responses

theorem length_dropWhile_lt {part rest : List ℕ} {p : ℕ → Bool} {c : ℕ} (h : part.dropWhile p = c :: rest) :
    rest.length < part.length := by
  have hle : (part.dropWhile p).length ≤ part.length := (List.dropWhile_suffix p).length_le
  rw [h, List.length_cons] at hle
  omega

/-- **What `drain_stdout` does with a chunk**, where it has `current` and the response lines so far. -/
def drainChunk (wanted : ℕ) (found : List ℕ × List (List ℕ)) (chunk : List ℕ) :
    Except StreamBreach (List ℕ × List (List ℕ)) :=
  if chunk = [] then .ok found
  else
    let part := chunk.takeWhile (· ≠ newlineByte)
    if maxResponseLine < found.fst.length + part.length then .error .responseLine
    else
      let line := found.fst ++ part
      match _h : chunk.dropWhile (· ≠ newlineByte) with
      | [] => .ok (line, found.snd)
      | _ :: rest =>
        if found.snd.length < wanted then drainChunk wanted ([], found.snd ++ [line]) rest
        else if nonblank line then .error .surplusLines
        else drainChunk wanted ([], found.snd) rest
termination_by chunk.length
decreasing_by all_goals exact length_dropWhile_lt _h

/-- What is left when the output ends. -/
def drainRest (wanted : ℕ) (found : List ℕ × List (List ℕ)) : Except StreamBreach (List (List ℕ)) :=
  if found.fst = [] then .ok found.snd
  else if found.snd.length < wanted then .ok (found.snd ++ [found.fst])
  else if nonblank found.fst then .error .surplusLines
  else .ok found.snd

/-- **`drain_stdout`**, of the chunks that are read. -/
def drainStdout (wanted : ℕ) (chunks : List (List ℕ)) : Except StreamBreach (List (List ℕ)) :=
  chunks.foldlM (drainChunk wanted) ([], []) >>= drainRest wanted

/-! ## Chunks do not matter -/

section Chunks

variable {wanted : ℕ} {pending : List ℕ} {responses : List (List ℕ)}

/-- Lines that are ended, and what is left, which is not too long. -/
def takeLines (wanted : ℕ) (responses : List (List ℕ)) (found : List (List ℕ) × List ℕ) :
    Except StreamBreach (List ℕ × List (List ℕ)) :=
  found.fst.foldlM (takeLine wanted) responses >>= fun responses =>
    if maxResponseLine < found.snd.length then .error .responseLine else .ok (found.snd, responses)

variable {part : List ℕ}

theorem split_of_notMem (h : newlineByte ∉ part) (rest : List ℕ) :
    (part ++ newlineByte :: rest).takeWhile (· ≠ newlineByte) = part
      ∧ (part ++ newlineByte :: rest).dropWhile (· ≠ newlineByte) = newlineByte :: rest := by
  have hall : ∀ b ∈ part, decide (b ≠ newlineByte) = true := fun b hb => decide_eq_true fun heq => h (heq ▸ hb)
  rw [List.takeWhile_append_of_pos hall, List.dropWhile_append_of_pos hall]
  simp

theorem drainChunk_line (h : newlineByte ∉ part) (rest : List ℕ) :
    drainChunk wanted (pending, responses) (part ++ newlineByte :: rest)
      = takeLine wanted responses (pending ++ part) >>= fun responses => drainChunk wanted ([], responses) rest := by
  obtain ⟨htake, hdrop⟩ := split_of_notMem h rest
  rw [drainChunk, if_neg (by simp)]
  simp only [htake, takeLine, List.length_append]
  by_cases hlong : maxResponseLine < pending.length + part.length
  · rw [if_pos hlong, if_pos hlong]
    rfl
  · rw [if_neg hlong, if_neg hlong]
    split
    · rename_i hnil
      rw [hdrop] at hnil
      cases hnil
    · rename_i hcons
      rw [hdrop] at hcons
      obtain ⟨-, rfl⟩ := List.cons.inj hcons
      split_ifs <;> rfl

theorem drainChunk_of_notMem {chunk : List ℕ} (h : newlineByte ∉ chunk) (hpending : pending.length ≤ maxResponseLine) :
    drainChunk wanted (pending, responses) chunk = takeLines wanted responses ([], pending ++ chunk) := by
  have hlines : takeLines wanted responses ([], pending ++ chunk)
      = if maxResponseLine < (pending ++ chunk).length then .error .responseLine
        else .ok (pending ++ chunk, responses) := rfl
  have hall : ∀ b ∈ chunk, decide (b ≠ newlineByte) = true := fun b hb => decide_eq_true fun heq => h (heq ▸ hb)
  have htake : chunk.takeWhile (· ≠ newlineByte) = chunk := List.takeWhile_eq_self_iff.mpr hall
  have hdrop : chunk.dropWhile (· ≠ newlineByte) = [] := List.dropWhile_eq_nil_iff.mpr hall
  rw [hlines, drainChunk]
  by_cases hnil : chunk = []
  · subst hnil
    rw [if_pos rfl, List.append_nil, if_neg (Nat.not_lt.mpr hpending)]
  · rw [if_neg hnil]
    simp only [htake, List.length_append]
    by_cases hlong : maxResponseLine < pending.length + chunk.length
    · rw [if_pos hlong, if_pos hlong]
    · rw [if_neg hlong, if_neg hlong]
      split
      · rfl
      · rename_i hcons
        rw [hdrop] at hcons
        cases hcons

theorem takeLines_append {lines : List (List ℕ)} {found : List (List ℕ) × List ℕ} :
    takeLines wanted responses (lines ++ found.fst, found.snd)
      = lines.foldlM (takeLine wanted) responses >>= fun responses => takeLines wanted responses found := by
  unfold takeLines
  rw [List.foldlM_append]
  cases lines.foldlM (takeLine wanted) responses <;> rfl

theorem drainChunk_eq (hnot : newlineByte ∉ pending) (hpending : pending.length ≤ maxResponseLine) (chunk : List ℕ) :
    drainChunk wanted (pending, responses) chunk = takeLines wanted responses (cut newlineByte (pending ++ chunk)) := by
  induction chunk using induction_on_lines newlineByte generalizing pending responses with
  | hrest rest h =>
    rw [drainChunk_of_notMem h hpending, cut_of_notMem fun hmem => (List.mem_append.mp hmem).elim hnot h]
  | hline part rest h ih =>
    have hline : newlineByte ∉ pending ++ part := fun hmem => (List.mem_append.mp hmem).elim hnot h
    rw [drainChunk_line h, ← List.append_assoc, cut_line hline, ← List.singleton_append, takeLines_append]
    have hone : [pending ++ part].foldlM (takeLine wanted) responses = takeLine wanted responses (pending ++ part) := by
      rw [List.foldlM_cons]
      cases takeLine wanted responses (pending ++ part) <;> rfl
    rw [hone]
    refine congrArg _ (funext fun taken => ?_)
    exact ih List.not_mem_nil (Nat.zero_le _)

variable {rest : List ℕ}

theorem takeLines_of_long (hnot : newlineByte ∉ rest) (hlong : maxResponseLine < rest.length)
    (later : List ℕ) : takeLines wanted responses (cut newlineByte (rest ++ later)) = .error .responseLine := by
  by_cases hmem : newlineByte ∈ later
  · obtain ⟨part, later, rfl, hpart⟩ := List.eq_append_cons_of_mem hmem
    have hline : newlineByte ∉ rest ++ part := fun hmem => (List.mem_append.mp hmem).elim hnot hpart
    have hlength : maxResponseLine < (rest ++ part).length := by
      rw [List.length_append]
      omega
    rw [← List.append_assoc, cut_line hline]
    unfold takeLines
    rw [List.foldlM_cons, takeLine, if_pos hlength]
    rfl
  · have hlength : maxResponseLine < (rest ++ later).length := by
      rw [List.length_append]
      omega
    rw [cut_of_notMem fun h => (List.mem_append.mp h).elim hnot hmem]
    exact if_pos hlength

theorem foldlM_drainChunk (chunks : List (List ℕ)) (hnot : newlineByte ∉ pending)
    (hpending : pending.length ≤ maxResponseLine) :
    chunks.foldlM (drainChunk wanted) (pending, responses)
      = takeLines wanted responses (cut newlineByte (pending ++ chunks.flatten)) := by
  induction chunks generalizing pending responses with
  | nil =>
    rw [List.flatten_nil, List.append_nil, cut_of_notMem hnot]
    exact (if_neg (Nat.not_lt.mpr hpending)).symm
  | cons chunk chunks ih =>
    rw [List.foldlM_cons, drainChunk_eq hnot hpending, List.flatten_cons, ← List.append_assoc,
      cut_append (pending ++ chunk) chunks.flatten, takeLines_append]
    have hrest : newlineByte ∉ (cut newlineByte (pending ++ chunk)).snd := notMem_rest _
    revert hrest
    obtain ⟨ended, rest⟩ := cut newlineByte (pending ++ chunk)
    intro hrest
    show (ended.foldlM (takeLine wanted) responses >>= fun taken =>
      if maxResponseLine < rest.length then _ else .ok (rest, taken)) >>= _ = _
    cases ended.foldlM (takeLine wanted) responses with
    | error breach => rfl
    | ok taken =>
      show (if maxResponseLine < rest.length then _ else .ok (rest, taken)) >>= _
        = takeLines wanted taken (cut newlineByte (rest ++ chunks.flatten))
      split_ifs with hlong
      · exact (takeLines_of_long hrest hlong _).symm
      · exact ih hrest (Nat.not_lt.mp hlong)

theorem drainRest_eq (hne : rest ≠ []) (hrest : rest.length ≤ maxResponseLine) :
    drainRest wanted (rest, responses) = takeLine wanted responses rest := by
  unfold drainRest takeLine
  rw [if_neg hne, if_neg (Nat.not_lt.mpr hrest)]

theorem drainStdout_eq (chunks : List (List ℕ)) :
    drainStdout wanted chunks = (lines newlineByte chunks.flatten).foldlM (takeLine wanted) [] := by
  unfold drainStdout
  rw [foldlM_drainChunk chunks List.not_mem_nil (Nat.zero_le _), List.nil_append]
  unfold takeLines lines
  obtain ⟨ended, rest⟩ := cut newlineByte chunks.flatten
  by_cases hnil : rest = []
  · subst hnil
    rw [if_pos rfl]
    cases ended.foldlM (takeLine wanted) [] <;> rfl
  · rw [if_neg hnil, List.foldlM_append]
    cases ended.foldlM (takeLine wanted) [] with
    | error breach => rfl
    | ok taken =>
      have hone : [rest].foldlM (takeLine wanted) taken = takeLine wanted taken rest := by
        rw [List.foldlM_cons]
        cases takeLine wanted taken rest <;> rfl
      show (if maxResponseLine < rest.length then _ else _) >>= drainRest wanted = [rest].foldlM (takeLine wanted) taken
      rw [hone]
      split_ifs with hlong
      · exact (if_pos hlong).symm
      · exact drainRest_eq hnil (Nat.not_lt.mp hlong)

theorem drained_eq_take {chunks : List (List ℕ)} (h : drainStdout wanted chunks = .ok responses) :
    responses = (lines newlineByte chunks.flatten).take wanted := by
  have hfold : ∀ (ls taken responses : List (List ℕ)), taken.length ≤ wanted →
      ls.foldlM (takeLine wanted) taken = .ok responses →
      responses = taken ++ ls.take (wanted - taken.length) := by
    intro ls
    induction ls with
    | nil =>
      intro taken responses _ h
      rw [List.take_nil, List.append_nil]
      exact (Except.ok.inj h).symm
    | cons line ls ih =>
      intro taken responses hle h
      rw [List.foldlM_cons] at h
      unfold takeLine at h
      split_ifs at h with hlong hlt
      · cases h
      · have hrest := ih (taken ++ [line]) responses (by rw [List.length_append]; exact hlt) h
        obtain ⟨k, hk⟩ : ∃ k, wanted - taken.length = k + 1 := ⟨wanted - taken.length - 1, by omega⟩
        have hk' : wanted - (taken ++ [line]).length = k := by
          rw [List.length_append, List.length_singleton]
          omega
        rw [hrest, hk, hk', List.take_succ_cons, List.append_assoc, List.singleton_append]
      · cases h
      · have hrest := ih taken responses hle h
        have hzero : wanted - taken.length = 0 := by omega
        rw [hzero, List.take_zero] at hrest ⊢
        exact hrest
  rw [drainStdout_eq] at h
  exact hfold _ [] responses (Nat.zero_le _) h

end Chunks
