import HttkWorkflow.LineSplitting
import HttkWorkflow.PyValue
import Mathlib.Data.List.DropRight
import Mathlib.Order.Monotone.Defs

/-!
# The lines a supervised process writes

Monitors and checkers are sent one event for each line that a supervised
process writes to a stream or to a followed file. `read_streams` keeps what
it has read of a stream behind the last newline until the rest of the line
comes. `follow_file` looks at a file from time to time, and `drain` reads
lines of it with `readline` until there is nothing more; a line of which only
the beginning has been written yet is a line to `readline`.

A run of `read_streams` is what is written to each stream and the list of the
reads, of all streams in the order they came. An empty read is the end of a
stream; a run may also stop before. A run of `follow_file` is given by what the
process writes to the file and how much of that is there at each call of
`readline`. Its last poll sees all of it if it comes after the process is done,
and need not if `inactivity_timeout` is what ends it. The lines of a stream that
is read out are those of its contents, whatever the reads were. Those of a file
that is followed to its end are, exactly if no call of `readline` comes between
two parts of one line (`line_events`).
-/

open LineSplitting

/-! ## The text of a line -/

/-- **A first byte of a UTF-8 sequence**: how many bytes follow, the bounds of the next one, and its bits. -/
def utf8Head (b : ℕ) : Option (ℕ × ℕ × ℕ × ℕ) :=
  if b < 0x80 then some (0, 0x80, 0xBF, b)
  else if 0xC2 ≤ b ∧ b < 0xE0 then some (1, 0x80, 0xBF, b - 0xC0)
  else if 0xE0 ≤ b ∧ b < 0xF0 then
    some (2, if b = 0xE0 then 0xA0 else 0x80, if b = 0xED then 0x9F else 0xBF, b - 0xE0)
  else if 0xF0 ≤ b ∧ b < 0xF5 then
    some (3, if b = 0xF0 then 0x90 else 0x80, if b = 0xF4 then 0x8F else 0xBF, b - 0xF0)
  else none

/-- `U+FFFD`. -/
def replacementCode : ℕ := 0xFFFD

/-- The rest of a sequence: its code point, or the replacement of the part that is there. -/
def utf8Tail : ℕ → ℕ → ℕ → ℕ → List ℕ → ℕ × List ℕ
  | 0, _, _, value, rest => (value, rest)
  | _ + 1, _, _, _, [] => (replacementCode, [])
  | n + 1, low, high, value, b :: rest =>
    if low ≤ b ∧ b ≤ high then utf8Tail n 0x80 0xBF (value * 0x40 + (b - 0x80)) rest
    else (replacementCode, b :: rest)

/-- One code point, and the bytes behind it. -/
def utf8Step (b : ℕ) (rest : List ℕ) : ℕ × List ℕ :=
  match utf8Head b with
  | some (n, low, high, value) => utf8Tail n low high value rest
  | none => (replacementCode, rest)

theorem length_utf8Tail (n low high value : ℕ) (rest : List ℕ) :
    (utf8Tail n low high value rest).snd.length ≤ rest.length := by
  induction n, low, high, value, rest using utf8Tail.induct with
  | case1 low high value rest => exact Nat.le_refl _
  | case2 => exact Nat.le_refl _
  | case3 n low high value b rest hb ih =>
    rw [utf8Tail, if_pos hb]
    exact ih.trans (Nat.le_succ _)
  | case4 n low high value b rest hb =>
    rw [utf8Tail, if_neg hb]

theorem length_utf8Step (b : ℕ) (rest : List ℕ) : (utf8Step b rest).snd.length ≤ rest.length := by
  unfold utf8Step
  split
  · exact length_utf8Tail _ _ _ _ rest
  · exact Nat.le_refl _

/-- **`decode("utf-8", errors="replace")`**. -/
def decodeReplace : List ℕ → List ℕ
  | [] => []
  | b :: rest => (utf8Step b rest).fst :: decodeReplace (utf8Step b rest).snd
termination_by bytes => bytes.length
decreasing_by exact Nat.lt_succ_of_le (length_utf8Step b rest)

/-- `'\n'`. -/
def newline : ℕ := 0x0A

/-- **The text of a line event**: `line.decode("utf-8", errors="replace").rstrip("\r\n")`. -/
def lineText (line : List ℕ) : PyStr := ⟨(decodeReplace line).rdropWhile fun c => c = 0x0D ∨ c = newline⟩

theorem utf8Tail_append_newline (n low high value : ℕ) (rest : List ℕ) (hlow : newline < low) :
    utf8Tail n low high value (rest ++ [newline])
      = ((utf8Tail n low high value rest).fst, (utf8Tail n low high value rest).snd ++ [newline]) := by
  induction n, low, high, value, rest using utf8Tail.induct with
  | case1 low high value rest => rw [utf8Tail, utf8Tail]
  | case2 n low high value =>
    have hnot : ¬(low ≤ newline ∧ newline ≤ high) := fun h => absurd h.1 (Nat.not_le.mpr hlow)
    rw [List.nil_append, utf8Tail.eq_3, if_neg hnot, utf8Tail, List.nil_append]
  | case3 n low high value b rest hb ih =>
    rw [List.cons_append, utf8Tail, if_pos hb, utf8Tail, if_pos hb]
    exact ih (by decide)
  | case4 n low high value b rest hb =>
    rw [List.cons_append, utf8Tail, if_neg hb, utf8Tail, if_neg hb]
    rfl

theorem utf8Step_append_newline (b : ℕ) (rest : List ℕ) :
    utf8Step b (rest ++ [newline]) = ((utf8Step b rest).fst, (utf8Step b rest).snd ++ [newline]) := by
  unfold utf8Step
  split
  · rename_i n low high value hhead
    refine utf8Tail_append_newline n low high value rest ?_
    unfold utf8Head at hhead
    split_ifs at hhead <;> obtain ⟨-, rfl, -⟩ := Option.some.inj hhead <;> decide
  · rfl

theorem decodeReplace_append_newline (line : List ℕ) :
    decodeReplace (line ++ [newline]) = decodeReplace line ++ [newline] := by
  induction line using decodeReplace.induct with
  | case1 =>
    have hnewline : utf8Step newline [] = (newline, []) := rfl
    rw [List.nil_append, decodeReplace.eq_2, hnewline, decodeReplace]
    rfl
  | case2 b rest ih =>
    rw [List.cons_append, decodeReplace, decodeReplace, utf8Step_append_newline, ih, List.cons_append]

theorem lineText_append_newline (line : List ℕ) : lineText (line ++ [newline]) = lineText line := by
  unfold lineText
  rw [decodeReplace_append_newline, List.rdropWhile_concat_pos _ _ _ (by decide)]

theorem lineText_chomp (line : List ℕ) : lineText (chomp newline line) = lineText line := by
  unfold chomp
  split_ifs with hended
  · obtain ⟨line, rfl⟩ := List.getLast?_eq_some_iff.mp hended
    rw [List.dropLast_concat, lineText_append_newline]
  · rfl

/-- An event dispatched for a source: a line of it, or its end. -/
inductive SourceEvent (κ : Type)
  | line (source : κ) (text : PyStr)
  | sourceEof (source : κ)

def SourceEvent.lineOf? {κ : Type} [DecidableEq κ] (s : κ) : SourceEvent κ → Option PyStr
  | line source text => if source = s then some text else none
  | sourceEof _ => none

/-! ## Streams -/

/-- **`emit_lines`**: the lines that are ended, and what is left. -/
def emitLines (remainder : List ℕ) : List (List ℕ) × List ℕ :=
  if newline ∈ remainder then
    let rest := emitLines (remainder.dropWhile fun b => b ≠ newline).tail
    (remainder.takeWhile (fun b => b ≠ newline) :: rest.fst, rest.snd)
  else ([], remainder)
termination_by remainder.length
decreasing_by
  rename_i hmem
  have hpos := List.length_pos_of_mem hmem
  have hsub : (remainder.dropWhile fun b => decide (b ≠ newline)).Sublist remainder := List.dropWhile_sublist _
  have hle := hsub.length_le
  rw [List.length_tail]
  omega

theorem emitLines_eq (remainder : List ℕ) : emitLines remainder = cut newline remainder := by
  induction remainder using induction_on_lines newline with
  | hrest rest h => rw [emitLines, if_neg h, cut_of_notMem h]
  | hline line rest h ih =>
    have hmem : newline ∈ line ++ newline :: rest := List.mem_append_right _ List.mem_cons_self
    have hline : ∀ b ∈ line, decide (b ≠ newline) = true := fun b hb => decide_eq_true fun hb' => h (hb' ▸ hb)
    rw [emitLines, if_pos hmem, List.takeWhile_append_of_pos hline, List.dropWhile_append_of_pos hline,
      List.takeWhile_cons_of_neg (by decide), List.dropWhile_cons_of_neg (by decide), List.tail_cons, ih,
      List.append_nil, cut_line h]

section Streams

variable {κ : Type} [DecidableEq κ]

/-- **What `read_streams` holds**: the bytes of each stream behind its last newline, and what it dispatched. -/
structure StreamReading (κ : Type) where
  pending : κ → List ℕ
  events : List (SourceEvent κ)

def StreamReading.start : StreamReading κ := ⟨fun _ => [], []⟩

/-- **What one read does**; an empty one ends its stream. -/
def StreamReading.readChunk (r : StreamReading κ) (read : κ × List ℕ) : StreamReading κ :=
  let source := read.fst
  if read.snd = [] then
    ⟨r.pending, r.events
      ++ (if r.pending source = [] then [] else [.line source (lineText (r.pending source))])
      ++ [.sourceEof source]⟩
  else
    let emitted := emitLines (r.pending source ++ read.snd)
    ⟨Function.update r.pending source emitted.snd,
      r.events ++ emitted.fst.map fun line => .line source (lineText line)⟩

/-- What the reads of a stream found, in the order they came. -/
def chunksOf (reads : List (κ × List ℕ)) (s : κ) : List (List ℕ) :=
  reads.filterMap fun read => if read.fst = s then some read.snd else none

/-- **A run of `read_streams`**: what is written to each stream, and the reads that were taken in. A read that
finds nothing, or fails, is the last of its stream; an error of a sink or of a stream ends all. -/
structure StreamRun (κ : Type) [DecidableEq κ] where
  written : κ → List ℕ
  reads : List (κ × List ℕ)
  ended : ∀ s, [] ∉ (chunksOf reads s).dropLast
  found : ∀ s, (chunksOf reads s).flatten <+: written s

/-- **What was read of a stream.** -/
def StreamRun.content (run : StreamRun κ) (s : κ) : List ℕ := (chunksOf run.reads s).flatten

/-- **A stream that is read out**: all of it was read, and its end, or nothing is left behind the last newline. -/
def StreamRun.ReadOut (run : StreamRun κ) (s : κ) : Prop :=
  run.content s = run.written s ∧ ([] ∈ chunksOf run.reads s ∨ (cut newline (run.content s)).snd = [])

/-- **The line events of a stream**, in the order they were dispatched. -/
def StreamRun.lineEvents (run : StreamRun κ) (s : κ) : List PyStr :=
  (run.reads.foldl StreamReading.readChunk StreamReading.start).events.filterMap (SourceEvent.lineOf? s)

/-- What a read of a stream adds to what was found of it. -/
def sourceStep (found : List (List ℕ) × List ℕ) (chunk : List ℕ) : List (List ℕ) × List ℕ :=
  if chunk = [] then (flush found, found.snd) else feed newline found chunk

/-- **A reading agrees with what was found of one stream.** -/
def StreamReading.Follows (r : StreamReading κ) (s : κ) (found : List (List ℕ) × List ℕ) : Prop :=
  r.events.filterMap (SourceEvent.lineOf? s) = found.fst.map lineText ∧ r.pending s = found.snd

@[simp] theorem lineOf?_self (s : κ) (text : PyStr) : (SourceEvent.line s text).lineOf? s = some text := if_pos rfl

variable {s source : κ}

theorem lineOf?_ne (h : source ≠ s) (text : PyStr) : (SourceEvent.line source text).lineOf? s = none :=
  if_neg h

theorem filterMap_lineOf_self (s : κ) (found : List (List ℕ)) :
    (found.map fun line => SourceEvent.line s (lineText line)).filterMap (SourceEvent.lineOf? s)
      = found.map lineText := by
  induction found with
  | nil => rfl
  | cons line found ih =>
    rw [List.map_cons, List.filterMap_cons_some (lineOf?_self s _), ih, List.map_cons]

theorem filterMap_lineOf_ne (h : source ≠ s) (found : List (List ℕ)) :
    (found.map fun line => SourceEvent.line source (lineText line)).filterMap (SourceEvent.lineOf? s) = [] := by
  induction found with
  | nil => rfl
  | cons line found ih =>
    rw [List.map_cons, List.filterMap_cons_none (lineOf?_ne h _), ih]

variable {found : List (List ℕ) × List ℕ} {r : StreamReading κ}

theorem StreamReading.Follows.readChunk_self {s : κ}
    (h : r.Follows s found) (chunk : List ℕ) : (r.readChunk (s, chunk)).Follows s (sourceStep found chunk) := by
  obtain ⟨hevents, hpending⟩ := h
  unfold StreamReading.readChunk sourceStep StreamReading.Follows
  dsimp only
  split_ifs with hchunk hempty
  · refine ⟨?_, hpending⟩
    rw [hpending] at hempty
    rw [List.append_nil, List.filterMap_append, hevents, flush, if_pos hempty]
    exact List.append_nil _
  · refine ⟨?_, hpending⟩
    rw [hpending] at hempty
    rw [List.filterMap_append, List.filterMap_append, hevents, flush, if_neg hempty, hpending, List.map_append,
      List.filterMap_cons_some (lineOf?_self s _)]
    exact List.append_nil _
  · refine ⟨?_, ?_⟩
    · rw [List.filterMap_append, hevents, filterMap_lineOf_self, emitLines_eq, hpending, ← List.map_append]
      rfl
    · dsimp only
      rw [Function.update_self, emitLines_eq, hpending]
      rfl

theorem StreamReading.Follows.readChunk_ne (h : r.Follows s found) (hne : source ≠ s) (chunk : List ℕ) :
    (r.readChunk (source, chunk)).Follows s found := by
  obtain ⟨hevents, hpending⟩ := h
  unfold StreamReading.readChunk StreamReading.Follows
  dsimp only
  split_ifs with hchunk hempty
  · refine ⟨?_, hpending⟩
    rw [List.append_nil, List.filterMap_append, hevents]
    exact List.append_nil _
  · refine ⟨?_, hpending⟩
    rw [List.filterMap_append, List.filterMap_append, hevents, List.filterMap_cons_none (lineOf?_ne hne _),
      List.filterMap_nil, List.append_nil]
    exact List.append_nil _
  · refine ⟨?_, ?_⟩
    · rw [List.filterMap_append, hevents, filterMap_lineOf_ne hne, List.append_nil]
    · dsimp only
      rw [Function.update_of_ne (Ne.symm hne), hpending]

theorem StreamReading.Follows.foldl {s : κ} (h : r.Follows s found) (reads : List (κ × List ℕ)) :
    (reads.foldl StreamReading.readChunk r).Follows s ((chunksOf reads s).foldl sourceStep found) := by
  induction reads generalizing r found with
  | nil => exact h
  | cons read reads ih =>
    obtain ⟨source, chunk⟩ := read
    rw [List.foldl_cons]
    by_cases hs : source = s
    · subst hs
      have hchunks : chunksOf ((source, chunk) :: reads) source = chunk :: chunksOf reads source :=
        List.filterMap_cons_some (if_pos rfl)
      rw [hchunks, List.foldl_cons]
      exact ih (h.readChunk_self chunk)
    · have hchunks : chunksOf ((source, chunk) :: reads) s = chunksOf reads s :=
        List.filterMap_cons_none (if_neg hs)
      rw [hchunks]
      exact ih (h.readChunk_ne hs chunk)

theorem foldl_sourceStep {chunks : List (List ℕ)} (h : [] ∉ chunks) (found : List (List ℕ) × List ℕ) :
    chunks.foldl sourceStep found = chunks.foldl (feed newline) found := by
  induction chunks generalizing found with
  | nil => rfl
  | cons chunk chunks ih =>
    obtain ⟨hchunk, hchunks⟩ := not_or.mp (List.mem_cons.not.mp h)
    rw [List.foldl_cons, List.foldl_cons, ih hchunks, sourceStep, if_neg (Ne.symm hchunk)]

theorem StreamRun.lineEvents_eq (run : StreamRun κ) (s : κ) : run.lineEvents s
    = (if [] ∈ chunksOf run.reads s then lines newline (run.content s)
        else (cut newline (run.content s)).fst).map lineText := by
  have hstart : (StreamReading.start : StreamReading κ).Follows s ([], []) := ⟨rfl, rfl⟩
  have hrun := (hstart.foldl run.reads).1
  have hended := run.ended s
  have hevents : run.lineEvents s = ((chunksOf run.reads s).foldl sourceStep ([], [])).fst.map lineText := hrun
  rw [hevents, StreamRun.content]
  generalize chunksOf run.reads s = chunks at hended
  split_ifs with hend
  · obtain ⟨reads, last, rfl⟩ := List.eq_nil_or_concat chunks |>.resolve_left (List.ne_nil_of_mem hend)
    rw [List.concat_eq_append] at hend hended ⊢
    rw [List.dropLast_concat] at hended
    obtain rfl : [] = last := List.mem_singleton.mp ((List.mem_append.mp hend).resolve_left hended)
    have hflat : (reads ++ [[]]).flatten = reads.flatten := by
      rw [List.flatten_append]
      exact List.append_nil _
    rw [List.foldl_append, foldl_sourceStep hended, hflat, ← flush_foldl_feed]
    rfl
  · rw [foldl_sourceStep hend, foldl_feed newline chunks [] List.not_mem_nil]
    rfl

/-- **A stream that is read out** has its lines as line events. -/
theorem StreamRun.lineEvents_of_readOut {run : StreamRun κ} {s : κ} (h : run.ReadOut s) :
    run.lineEvents s = (lines newline (run.written s)).map lineText := by
  obtain ⟨hall, hend⟩ := h
  rw [run.lineEvents_eq, ← hall]
  split_ifs with hread
  · rfl
  · unfold lines
    rw [if_pos (hend.resolve_left hread)]

/-- **Without its end** a stream has them only if it is read out. -/
theorem StreamRun.readOut_of_lineEvents {run : StreamRun κ} {s : κ} (hend : [] ∉ chunksOf run.reads s)
    (h : run.lineEvents s = (lines newline (run.written s)).map lineText) : run.ReadOut s := by
  obtain ⟨unread, hunread⟩ := run.found s
  have hwritten : run.content s ++ unread = run.written s := hunread
  rw [run.lineEvents_eq, if_neg hend, ← hwritten, lines_append, List.map_append] at h
  have hnone := List.self_eq_append_right.mp h
  obtain ⟨hpending, hleft⟩ := List.append_eq_nil_iff.mp (lines_eq_nil.mp (List.map_eq_nil_iff.mp hnone))
  refine ⟨?_, Or.inr hpending⟩
  rw [← hwritten, hleft, List.append_nil]

end Streams

/-! ## Followed files -/

/-- **A call of `readline`**: the position of the handle, and how much of the file is there. -/
structure Look where
  position : ℕ
  seen : ℕ
  deriving DecidableEq

/-- **`readline`**: up to and with the next newline, or all there is. -/
def readline (content : List ℕ) (look : Look) : List ℕ :=
  let available := (content.take look.seen).drop look.position
  if newline ∈ available then (available.takeWhile fun b => b ≠ newline) ++ [newline] else available

/-- **A call between two parts of one line**: the handle is at its beginning, and what is there does not reach
its end although more comes. -/
def Halved (content : List ℕ) (look : Look) : Prop :=
  look.position < look.seen ∧ look.seen < content.length ∧ newline ∉ (content.take look.seen).drop look.position

instance (content : List ℕ) (look : Look) : Decidable (Halved content look) :=
  inferInstanceAs (Decidable (_ ∧ _ ∧ _))

theorem readline_available (content : List ℕ) (look : Look) :
    ∃ later, (content.take look.seen).drop look.position = readline content look ++ later := by
  unfold readline
  dsimp only
  split_ifs with hmem
  · obtain ⟨line, rest, hsplit, hline⟩ := List.eq_append_cons_of_mem hmem
    have hkeep : ∀ b ∈ line, decide (b ≠ newline) = true := fun b hb =>
      decide_eq_true fun hb' => hline (hb' ▸ hb)
    rw [hsplit, List.takeWhile_append_of_pos hkeep, List.takeWhile_cons_of_neg (by decide), List.append_nil]
    exact ⟨rest, by simp⟩
  · exact ⟨[], (List.append_nil _).symm⟩

theorem readline_prefix (content : List ℕ) (look : Look) :
    ∃ later, content.drop look.position = readline content look ++ later := by
  obtain ⟨later, hlater⟩ := readline_available content look
  have hrest := List.take_append_drop (look.seen - look.position) (content.drop look.position)
  rw [← List.drop_take, hlater, List.append_assoc] at hrest
  exact ⟨_, hrest.symm⟩

theorem length_readline_le_seen (content : List ℕ) (look : Look) :
    (readline content look).length ≤ look.seen - look.position := by
  obtain ⟨later, hlater⟩ := readline_available content look
  have hlength := congrArg List.length hlater
  rw [List.length_append, List.length_drop, List.length_take] at hlength
  omega

theorem length_readline_le (content : List ℕ) (look : Look) :
    (readline content look).length ≤ content.length - look.position := by
  obtain ⟨later, hlater⟩ := readline_prefix content look
  rw [← List.length_drop, hlater, List.length_append]
  exact Nat.le_add_right _ _

variable {look : Look}

theorem readline_cases {content : List ℕ} (hne : readline content look ≠ []) : IsPiece newline (readline content look)
      ∧ (Ended newline (readline content look) ↔ newline ∈ (content.take look.seen).drop look.position) := by
  unfold readline at hne ⊢
  dsimp only at hne ⊢
  split_ifs at hne ⊢ with hmem
  · refine ⟨⟨hne, ?_⟩, iff_of_true List.getLast?_concat hmem⟩
    rw [List.dropLast_concat]
    intro hnewline
    have hkept : decide (newline ≠ newline) = true :=
      List.mem_takeWhile_imp (p := fun b => decide (b ≠ newline)) hnewline
    exact of_decide_eq_true hkept rfl
  · refine ⟨⟨hne, fun h => hmem (List.dropLast_subset _ h)⟩, iff_of_false (fun h => ?_) hmem⟩
    exact hmem (List.mem_of_getLast? h)

/-- **`drain`**: its calls, the number of the next one, and where the handle is. -/
def drain (content : List ℕ) (seen : ℕ → ℕ) (call position : ℕ) : List Look × ℕ × ℕ :=
  let look : Look := ⟨position, seen call⟩
  if readline content look = [] then ([look], call + 1, position)
  else
    let rest := drain content seen (call + 1) (position + (readline content look).length)
    (look :: rest.fst, rest.snd)
termination_by content.length - position
decreasing_by
  rename_i hne
  have hle := length_readline_le content ⟨position, seen call⟩
  have hpos : 0 < (readline content ⟨position, seen call⟩).length := List.length_pos_of_ne_nil hne
  dsimp only at hle
  omega

/-- **The polls of `follow_file`**: their calls, the number of the next one, and where the handle is. -/
def polled (content : List ℕ) (seen : ℕ → ℕ) : ℕ → List Look × ℕ × ℕ
  | 0 => ([], 0, 0)
  | polls + 1 =>
    let before := polled content seen polls
    let drained := drain content seen before.snd.fst before.snd.snd
    (before.fst ++ drained.fst, drained.snd)

/-- **A run of `follow_file`** on a file that is only appended to: what is written to it, how much of that is
there at each call of `readline`, and how many polls come before the last one. That sees all if the process is
done; if the file was inactive for too long, more may be written after it. -/
structure FollowRun where
  content : List ℕ
  seen : ℕ → ℕ
  grows : Monotone seen
  polls : ℕ
  inactive : Bool
  finishing : inactive = false → content.length ≤ seen (polled content seen polls).snd.fst

namespace FollowRun

/-- **The calls of `readline` of a run.** -/
def looks (run : FollowRun) : List Look := (polled run.content run.seen (run.polls + 1)).fst

/-- Where the handle is in the end. -/
def position (run : FollowRun) : ℕ := (polled run.content run.seen (run.polls + 1)).snd.snd

/-- **A file that is followed to its end**: the last call of `readline` sees all that is written to it. -/
def Whole (run : FollowRun) : Prop :=
  run.content.length ≤ run.seen ((polled run.content run.seen (run.polls + 1)).snd.fst - 1)

def lookEvents {κ : Type} (run : FollowRun) (source : κ) (look : Look) : List (SourceEvent κ) :=
  if readline run.content look = [] then [] else [.line source (lineText (readline run.content look))]

/-- **The events of a run.** -/
def events {κ : Type} (run : FollowRun) (source : κ) : List (SourceEvent κ) :=
  run.looks.flatMap (run.lookEvents source) ++ [.sourceEof source]

/-- **The line events of a run**, in the order they were dispatched. -/
def lineEvents {κ : Type} [DecidableEq κ] (run : FollowRun) (source : κ) : List PyStr :=
  (run.events source).filterMap (SourceEvent.lineOf? source)

end FollowRun

/-- **Calls that follow each other**, from one position of the handle to another. -/
def Reads (content : List ℕ) : ℕ → List Look → ℕ → Prop
  | position, [], last => position = last
  | position, look :: looks, last =>
    look.position = position ∧ Reads content (position + (readline content look).length) looks last

theorem Reads.append {content : List ℕ} {first second : List Look} {p q r : ℕ} (h : Reads content p first q)
    (h' : Reads content q second r) : Reads content p (first ++ second) r := by
  induction first generalizing p with
  | nil =>
    have hpq : p = q := h
    rwa [List.nil_append, hpq]
  | cons look looks ih => exact ⟨h.1, ih h.2⟩

theorem reads_drain (content : List ℕ) (seen : ℕ → ℕ) (call position : ℕ) :
    Reads content position (drain content seen call position).fst (drain content seen call position).snd.snd := by
  induction call, position using drain.induct content seen with
  | case1 call position look hnil =>
    rw [drain, if_pos hnil]
    refine ⟨rfl, ?_⟩
    rw [hnil]
    rfl
  | case2 call position look hne ih =>
    rw [drain, if_neg hne]
    exact ⟨rfl, ih⟩

/-- **A drain ends** with a call that finds nothing: the handle is where what is there ends, or behind it. -/
theorem drain_last (content : List ℕ) (seen : ℕ → ℕ) (call position : ℕ) :
    call < (drain content seen call position).snd.fst
      ∧ (content.take (seen ((drain content seen call position).snd.fst - 1))).drop
          (drain content seen call position).snd.snd = [] := by
  induction call, position using drain.induct content seen with
  | case1 call position look hnil =>
    rw [drain, if_pos hnil]
    refine ⟨Nat.lt_succ_self call, ?_⟩
    unfold readline at hnil
    dsimp only [look] at hnil
    split_ifs at hnil
    · exact absurd hnil (List.append_ne_nil_of_right_ne_nil _ (List.cons_ne_nil _ _))
    · exact hnil
  | case2 call position look hne ih =>
    rw [drain, if_neg hne]
    exact ⟨(Nat.lt_succ_self call).trans ih.1, ih.2⟩

theorem drain_position (content : List ℕ) {seen : ℕ → ℕ} (hgrows : Monotone seen) (call position : ℕ)
    (hposition : position ≤ seen call) :
    (drain content seen call position).snd.snd ≤ seen ((drain content seen call position).snd.fst - 1) := by
  induction call, position using drain.induct content seen with
  | case1 call position look hnil =>
    rw [drain, if_pos hnil]
    exact hposition
  | case2 call position look hne ih =>
    rw [drain, if_neg hne]
    refine ih ((?_ : _ ≤ seen call).trans (hgrows (Nat.le_succ call)))
    have hline := length_readline_le_seen content look
    dsimp only [look] at hline ⊢
    omega

theorem reads_polled (content : List ℕ) (seen : ℕ → ℕ) (polls : ℕ) :
    Reads content 0 (polled content seen polls).fst (polled content seen polls).snd.snd := by
  induction polls with
  | zero => rfl
  | succ polls ih => exact ih.append (reads_drain _ _ _ _)

/-- The pieces that some calls find. -/
def piecesOf (content : List ℕ) (looks : List Look) : List (List ℕ) :=
  (looks.map (readline content)).filter fun line => line ≠ []

theorem piecesOf_cons_nil {content : List ℕ} (h : readline content look = []) (looks : List Look) :
    piecesOf content (look :: looks) = piecesOf content looks := by
  unfold piecesOf
  rw [List.map_cons, List.filter_cons_of_neg (by simpa using h)]

theorem piecesOf_cons {content : List ℕ} (h : readline content look ≠ []) (looks : List Look) :
    piecesOf content (look :: looks) = readline content look :: piecesOf content looks := by
  unfold piecesOf
  rw [List.map_cons, List.filter_cons_of_pos (by simpa using h)]

theorem isPiece_of_mem_piecesOf {content : List ℕ} {looks : List Look} {p : List ℕ}
    (h : p ∈ piecesOf content looks) : IsPiece newline p := by
  obtain ⟨hmem, hne⟩ := List.mem_filter.mp h
  obtain ⟨look, -, rfl⟩ := List.mem_map.mp hmem
  exact (readline_cases (of_decide_eq_true hne)).1

variable {position last : ℕ}

theorem flatten_piecesOf {content : List ℕ} {looks : List Look} (h : Reads content position looks last) :
    (piecesOf content looks).flatten ++ content.drop last = content.drop position := by
  induction looks generalizing position with
  | nil =>
    have hposition : position = last := h
    rw [hposition]
    rfl
  | cons look looks ih =>
    obtain ⟨rfl, hrest⟩ := h
    have hih := ih hrest
    obtain ⟨later, hlater⟩ := readline_prefix content look
    have hdrop : content.drop (look.position + (readline content look).length) = later := by
      rw [← List.drop_drop, hlater, List.drop_left]
    by_cases hnil : readline content look = []
    · rw [piecesOf_cons_nil hnil, hih, hdrop, hlater, hnil, List.nil_append]
    · rw [piecesOf_cons hnil, List.flatten_cons, List.append_assoc, hih, hdrop, hlater]

theorem halved_iff {content : List ℕ} :
    Halved content look ↔ readline content look ≠ [] ∧ ¬Ended newline (readline content look)
      ∧ content.drop (look.position + (readline content look).length) ≠ [] := by
  have hlength : ((content.take look.seen).drop look.position).length
      = min look.seen content.length - look.position := by
    rw [List.length_drop, List.length_take]
  constructor
  · rintro ⟨hposition, hseen, hnot⟩
    have hline : readline content look = (content.take look.seen).drop look.position := if_neg hnot
    have hne : readline content look ≠ [] := by
      rw [hline, ← List.length_pos_iff, hlength]
      omega
    refine ⟨hne, fun hended => hnot ((readline_cases hne).2.mp hended), ?_⟩
    rw [hline, hlength, ← List.length_pos_iff, List.length_drop]
    omega
  · rintro ⟨hne, hended, hleft⟩
    have hnot : newline ∉ (content.take look.seen).drop look.position := fun h =>
      hended ((readline_cases hne).2.mpr h)
    have hline : readline content look = (content.take look.seen).drop look.position := if_neg hnot
    rw [hline, ← List.length_pos_iff, hlength] at hne
    rw [hline, hlength, ← List.length_pos_iff, List.length_drop] at hleft
    exact ⟨by omega, by omega, hnot⟩

theorem ended_iff_not_halved {content : List ℕ} {looks : List Look} (h : Reads content position looks last) :
    ((∀ p ∈ (piecesOf content looks).dropLast, Ended newline p)
        ∧ (content.drop last ≠ [] → ∀ p ∈ piecesOf content looks, Ended newline p))
      ↔ ∀ look ∈ looks, ¬Halved content look := by
  induction looks generalizing position with
  | nil => exact iff_of_true ⟨List.forall_mem_nil _, fun _ => List.forall_mem_nil _⟩ (List.forall_mem_nil _)
  | cons look looks ih =>
    obtain ⟨rfl, hrest⟩ := h
    have hflat := flatten_piecesOf hrest
    rw [List.forall_mem_cons, ← ih hrest, halved_iff, ← hflat]
    by_cases hnil : readline content look = []
    · rw [piecesOf_cons_nil hnil]
      exact (and_iff_right fun hhalved => hhalved.1 hnil).symm
    · rw [piecesOf_cons hnil]
      cases hpieces : piecesOf content looks with
      | nil =>
        rw [List.flatten_nil, List.nil_append]
        refine ⟨fun hall => ⟨fun hhalved => ?_, List.forall_mem_nil _, fun _ => List.forall_mem_nil _⟩, fun hall => ?_⟩
        · exact hhalved.2.1 (hall.2 hhalved.2.2 _ List.mem_cons_self)
        · refine ⟨List.forall_mem_nil _, fun hleft => List.forall_mem_singleton.mpr ?_⟩
          by_contra hended
          exact hall.1 ⟨hnil, hended, hleft⟩
      | cons p pieces =>
        have hp : IsPiece newline p := isPiece_of_mem_piecesOf (hpieces ▸ List.mem_cons_self)
        have hleft : (p :: pieces).flatten ++ content.drop last ≠ [] := fun hflatten =>
          hp.1 (List.append_eq_nil_iff.mp (List.flatten_cons ▸ (List.append_eq_nil_iff.mp hflatten).1)).1
        have hself : ¬(readline content look ≠ [] ∧ ¬Ended newline (readline content look)
            ∧ (p :: pieces).flatten ++ content.drop last ≠ []) ↔ Ended newline (readline content look) :=
          ⟨fun hnot => by_contra fun hended => hnot ⟨hnil, hended, hleft⟩, fun hended hhalved => hhalved.2.1 hended⟩
        rw [List.dropLast_cons_cons, List.forall_mem_cons, hself, and_assoc]
        refine and_congr_right fun hended => and_congr_right fun _ => imp_congr_right fun _ => ?_
        rw [List.forall_mem_cons]
        exact and_iff_right hended

namespace FollowRun

variable (run : FollowRun)

theorem reads_looks : Reads run.content 0 run.looks run.position :=
  reads_polled run.content run.seen (run.polls + 1)

/-- **The process is done before the last poll** of a file that is followed to its end otherwise than by chance. -/
theorem whole_of_finishing (h : run.inactive = false) : run.Whole := by
  have hlast := (drain_last run.content run.seen (polled run.content run.seen run.polls).snd.fst
    (polled run.content run.seen run.polls).snd.snd).1
  exact (run.finishing h).trans (run.grows (Nat.le_pred_of_lt hlast))

theorem position_le_seen (polls : ℕ) : (polled run.content run.seen polls).snd.snd
      ≤ run.seen (polled run.content run.seen polls).snd.fst := by
  induction polls with
  | zero => exact Nat.zero_le _
  | succ polls ih =>
    have hbefore := drain_position run.content run.grows _ _ ih
    exact hbefore.trans (run.grows (Nat.pred_le _))

/-- **Followed to its end** is: nothing is left. -/
theorem whole_iff : run.Whole ↔ run.content.drop run.position = [] := by
  have hlast := (drain_last run.content run.seen (polled run.content run.seen run.polls).snd.fst
    (polled run.content run.seen run.polls).snd.snd).2
  have hposition := drain_position run.content run.grows _ _ (run.position_le_seen run.polls)
  rw [List.drop_eq_nil_iff, List.length_take] at hlast
  rw [List.drop_eq_nil_iff]
  unfold Whole position
  rw [polled]
  dsimp only
  omega

theorem lineEvents_eq_pieces {κ : Type} [DecidableEq κ] (source : κ) :
    run.lineEvents source = (piecesOf run.content run.looks).map lineText := by
  unfold lineEvents events
  rw [List.filterMap_append]
  refine (List.append_nil _).trans ?_
  induction run.looks with
  | nil => rfl
  | cons look looks ih =>
    rw [List.flatMap_cons, List.filterMap_append, ih]
    unfold lookEvents
    by_cases hnil : readline run.content look = []
    · rw [if_pos hnil, piecesOf_cons_nil hnil]
      rfl
    · rw [if_neg hnil, piecesOf_cons hnil, List.filterMap_cons_some (lineOf?_self source _)]
      rfl

theorem lineEvents_eq_iff {κ : Type} [DecidableEq κ] (source : κ) (hwhole : run.Whole) :
    run.lineEvents source = (lines newline run.content).map lineText
      ↔ ∀ look ∈ run.looks, ¬Halved run.content look := by
  have hleft := run.whole_iff.mp hwhole
  have hpieces : ∀ p ∈ piecesOf run.content run.looks, IsPiece newline p := fun p hp => isPiece_of_mem_piecesOf hp
  have hflat : (piecesOf run.content run.looks).flatten ++ run.content.drop run.position = run.content :=
    flatten_piecesOf run.reads_looks
  rw [hleft, List.append_nil] at hflat
  have hhalved := ended_iff_not_halved run.reads_looks
  rw [hleft, and_iff_left (fun hne => absurd rfl hne)] at hhalved
  rw [← hhalved, run.lineEvents_eq_pieces]
  have hcases := pieces_cases hpieces
  rw [hflat] at hcases
  rcases hcases with ⟨hmap, hall⟩ | ⟨hlt, hnot⟩
  · refine iff_of_true ?_ hall
    rw [← hmap, List.map_map]
    exact List.map_congr_left fun p _ => (lineText_chomp p).symm
  · refine iff_of_false (fun hmap => ?_) hnot
    -- a line taken in two pieces is an event too many
    have hlength := congrArg List.length hmap
    rw [List.length_map, List.length_map] at hlength
    exact Nat.lt_irrefl _ (hlength ▸ hlt)

/-- **If no call is halved**, the line events are the lines only of a file that is followed to its end. -/
theorem whole_of_lineEvents {κ : Type} [DecidableEq κ] {source : κ}
    (hhalved : ∀ look ∈ run.looks, ¬Halved run.content look)
    (h : run.lineEvents source = (lines newline run.content).map lineText) : run.Whole := by
  by_contra hmore
  have hleft : run.content.drop run.position ≠ [] := fun hnil => hmore (run.whole_iff.mpr hnil)
  have hended := ((ended_iff_not_halved run.reads_looks).mpr hhalved).2 hleft
  have hflat : (piecesOf run.content run.looks).flatten ++ run.content.drop run.position = run.content :=
    flatten_piecesOf run.reads_looks
  have hlines := lines_flatten_append (fun p hp => isPiece_of_mem_piecesOf hp) hended (run.content.drop run.position)
  rw [hflat] at hlines
  -- what is left is at least one line more
  have hlength := congrArg List.length h
  rw [run.lineEvents_eq_pieces, List.length_map, List.length_map, hlines, List.length_append, List.length_map] at hlength
  have hnone := List.eq_nil_of_length_eq_zero (Nat.left_eq_add.mp hlength)
  exact hleft (lines_eq_nil.mp hnone)

end FollowRun

/-- **The line events of a source.** Those of a stream that is read out are its lines, whatever the reads were; those
of a file that is followed to its end are, exactly if no call of `readline` comes between two parts of one line.
Where the end of a stream was not read, or no call is halved, being read out or followed to the end is needed. -/
theorem line_events {κ : Type} [DecidableEq κ] (source : κ) :
    (∀ run : StreamRun κ, (run.ReadOut source → run.lineEvents source = (lines newline (run.written source)).map lineText)
        ∧ ([] ∉ chunksOf run.reads source →
          run.lineEvents source = (lines newline (run.written source)).map lineText → run.ReadOut source))
      ∧ ∀ run : FollowRun, (run.Whole → (run.lineEvents source = (lines newline run.content).map lineText
            ↔ ∀ look ∈ run.looks, ¬Halved run.content look))
          ∧ ((∀ look ∈ run.looks, ¬Halved run.content look) →
            (run.lineEvents source = (lines newline run.content).map lineText ↔ run.Whole)) :=
  ⟨fun _ => ⟨StreamRun.lineEvents_of_readOut, StreamRun.readOut_of_lineEvents⟩, fun run =>
    ⟨run.lineEvents_eq_iff source, fun hhalved => ⟨run.whole_of_lineEvents hhalved,
      fun hwhole => (run.lineEvents_eq_iff source hwhole).mpr hhalved⟩⟩⟩

def halvedRun : FollowRun where
  content := [0x61, 0x62, 0x63, newline]
  seen call := if call < 2 then 2 else 4
  grows a b hab := by
    dsimp only
    split_ifs <;> omega
  polls := 1
  inactive := false
  finishing _ := by
    simp [polled, drain, readline, newline]

/-- **A line in halves**: one event with `ab` and one with `c`, of the line `abc`. -/
theorem halvedRun_lineEvents :
    halvedRun.lineEvents () = [⟨[0x61, 0x62]⟩, ⟨[0x63]⟩]
      ∧ (lines newline halvedRun.content).map lineText = [⟨[0x61, 0x62, 0x63]⟩] := by
  constructor
  · simp [halvedRun, FollowRun.lineEvents, FollowRun.events, FollowRun.looks, polled, drain, readline,
      FollowRun.lookEvents, lineText, decodeReplace, utf8Step, utf8Head, utf8Tail, newline]
    exact ⟨rfl, rfl⟩
  · simp [halvedRun, lines, cut, lineText, decodeReplace, utf8Step, utf8Head, utf8Tail, newline]
