import Mathlib.Logic.Function.Basic
import HttkWorkflow.PyValue
import HttkWorkflow.System

/-!
# The numbers of sealed transfers

A destination keeps, of each stream of transfers, the ranges of numbers it has
received, and takes a number it has for a replay. So a source must never seal
two transfers under one epoch and one number. It numbers within a stream of
its own process, whose epoch is a fresh UUID and whose counter is in memory;
what it writes to `issued.json` and its checkpoint is looked at only to tell
whether to begin another stream.

Here any number of processes detach jobs, each effect a step of its own, with
crashes and exceptions between them, and the two files may be given any other
content at any time. A process is started or forked from another, with a copy
of its memory. The memory is keyed by the process id, so that a fork finds no
stream of its own there – unless the system gave it the id of a process that
its memory was once copied from. `tickets_distinct` says that this is the only
way to seal a number twice.
-/

/-- `_origin`: the workspace, as a process on some host sees it. -/
structure Origin where
  /-- `socket.gethostname()`. -/
  host : PyStr
  root : PyStr
  /-- The device and the inode of its control directory. -/
  device : ℕ
  inode : ℕ
deriving DecidableEq

/-- **One stream** of an allocator. -/
structure IssuedStream where
  epoch : PyStr
  last : ℕ
  /-- The job and the number of each transfer that was reserved. -/
  pending : Dict PyStr (PyStr × ℕ)
deriving DecidableEq

/-- The key of a stream in `_session_streams`. -/
structure SessionKey where
  /-- `os.getpid()`. -/
  pid : ℕ
  origin : Origin
  peer : PyStr
deriving DecidableEq

/-- **What a transfer is sealed under.** -/
structure Ticket where
  peer : PyStr
  jobId : PyStr
  transferId : PyStr
  epoch : PyStr
  sequence : ℕ
deriving DecidableEq

/-- What `issued.json` holds, and a copy of it in the checkpoint. -/
abbrev IssuedStreams := Dict PyStr IssuedStream

/-- **The allocator's files**: `issued.json`, empty where it is missing, and
`issued-checkpoint.json`. -/
structure AllocatorFiles where
  issued : IssuedStreams
  checkpoint : Option (Origin × IssuedStreams)

/-- **How far a process is** with what it was asked for. -/
inductive SessionPhase where
  | idle
  /-- `detach_job` is about to reserve a number. -/
  | asked (peer jobId transferId : PyStr)
  /-- `_publish_issued`, and whether the checkpoint is written. -/
  | publishing (streams : IssuedStreams) (checkpointed : Bool) (ticket : Option Ticket)
  | reserved (ticket : Ticket)
  /-- `fencing` was called, and the job is about to be fenced. -/
  | fencing (ticket : Ticket)
  /-- The job is fenced, and `_seal_transferring` runs. -/
  | sealing (ticket : Ticket)
  /-- `sealed` is about to be called. -/
  | completing (peer transferId : PyStr)
deriving DecidableEq

/-- **A process**, with `_session_streams`. -/
structure Session where
  pid : ℕ
  origin : Origin
  streams : Dict SessionKey IssuedStream
  phase : SessionPhase
deriving DecidableEq

/-- Python's `==` of dictionaries, whatever the order of the entries. -/
def Dict.equals {κ β : Type} [DecidableEq κ] (eq : β → β → Bool) (d d' : Dict κ β) : Bool :=
  (d.map Prod.fst ++ d'.map Prod.fst).all fun key =>
    match d.get key, d'.get key with
    | some v, some v' => eq v v'
    | _, _ => false

/-- `==` of two streams. -/
def IssuedStream.equals (a b : IssuedStream) : Bool :=
  a.epoch == b.epoch && a.last == b.last && a.pending.equals (· == ·) b.pending

/-! ## The allocator -/

def AllocatorFiles.agrees (files : AllocatorFiles) (origin : Origin) : Bool :=
  match files.checkpoint with
  | some (origin', streams) => origin' == origin && streams.equals IssuedStream.equals files.issued
  | none => false

namespace Session

def key (q : Session) (peer : PyStr) : SessionKey := ⟨q.pid, q.origin, peer⟩

def own (q : Session) (peer : PyStr) : Option IssuedStream := q.streams.get (q.key peer)

def withOwn (q : Session) (peer : PyStr) (stream : IssuedStream) : Session :=
  { q with streams := q.streams.set (q.key peer) stream }

/-- The process goes on. -/
def withPhase (q : Session) (phase : SessionPhase) : Session := { q with phase := phase }

end Session

/-- **The stream a number is taken of**: a new one, unless the process has one and its own entry on
disk was not rolled back. -/
def nextStream (epoch : PyStr) (current onDisk : Option IssuedStream) : IssuedStream :=
  match current, onDisk with
  | some current, some stream =>
    if stream.epoch = current.epoch then
      if stream.equals current = true then current else ⟨epoch, 0, []⟩
    else { current with pending := [] }
  | _, _ => ⟨epoch, 0, []⟩

/-- The next number is reserved. -/
def IssuedStream.count (stream : IssuedStream) (transferId jobId : PyStr) : IssuedStream :=
  { stream with
    last := stream.last + 1
    pending := stream.pending.set transferId (jobId, stream.last + 1) }

/-- **`reserve`**, up to what it publishes. `epoch` is the UUID it makes up, if it does. -/
def reserve (files : AllocatorFiles) (q : Session) (peer jobId transferId epoch : PyStr) : Session :=
  let streams := if files.agrees q.origin = true then files.issued else []
  let stream := nextStream epoch (q.own peer) (streams.get peer)
  match stream.pending.find? fun e => e.snd.fst = jobId with
  | some (identifier, _, sequence) =>
    (q.withOwn peer stream).withPhase (.reserved ⟨peer, jobId, identifier, stream.epoch, sequence⟩)
  | none =>
    let counted := stream.count transferId jobId
    (q.withOwn peer counted).withPhase (.publishing (streams.set peer counted) false
      (some ⟨peer, jobId, transferId, counted.epoch, counted.last⟩))

/-- **`fencing`**: the process forgets a reservation. -/
def Session.forget (q : Session) (peer transferId : PyStr) : Session :=
  match q.own peer with
  | some stream => q.withOwn peer { stream with pending := stream.pending.without [transferId] }
  | none => q

/-- **`sealed`**, up to what it publishes. -/
def completed (files : AllocatorFiles) (q : Session) (peer transferId : PyStr) : Session :=
  (q.forget peer transferId).withPhase <|
    if files.agrees q.origin = true then
      match files.issued.get peer with
      | some stream =>
        if (stream.pending.get transferId).isSome = true then
          .publishing (files.issued.set peer
            { stream with pending := stream.pending.without [transferId] }) false none
        else .idle
      | none => .idle
    else .idle

/-! ## The processes -/

/-- **A workspace whose jobs are detached.** -/
structure TicketNumbering where
  files : AllocatorFiles
  processes : ℕ → Option Session
  /-- The process that holds the protocol lock. -/
  holder : Option ℕ
  epochs : List PyStr
  /-- What the jobs that were fenced are sealed under. -/
  fenced : List Ticket
  sealed : List Ticket

/-- **What can happen next.** -/
inductive NumberingStep where
  | start (i pid : ℕ) (origin : Origin)
  | fork (i j pid : ℕ)
  | crash (i : ℕ)
  /-- The files get another content. -/
  | restore (files : AllocatorFiles)
  /-- `detach_job` of a job that is not fenced yet. -/
  | ask (i : ℕ) (peer jobId transferId : PyStr)
  /-- A job that was fenced is sealed, by whichever process comes upon it. -/
  | resume (i : ℕ) (ticket : Ticket)
  | retire (i : ℕ) (peer transferId : PyStr)
  /-- A process makes its next effect; `epoch` is the UUID it makes up, if it does. -/
  | proceed (i : ℕ) (epoch : PyStr)
  /-- Its call raises. -/
  | raise (i : ℕ)

namespace TicketNumbering

/-- A process goes on, and releases the lock when its call is over. -/
def withSession (s : TicketNumbering) (i : ℕ) (q : Session) : TicketNumbering :=
  { s with
    processes := Function.update s.processes i (some q)
    holder := if q.phase = .idle then none else some i }

/-- A call begins, once the lock is free. -/
def enter (s : TicketNumbering) (i : ℕ) (phase : SessionPhase) : Option TicketNumbering :=
  match s.processes i with
  | some q => if s.holder = none ∧ q.phase = .idle then some (s.withSession i (q.withPhase phase)) else none
  | none => none

/-- **The next effect** of a call. -/
def proceed (s : TicketNumbering) (i : ℕ) (q : Session) (epoch : PyStr) : Option TicketNumbering :=
  match q.phase with
  | .idle => none
  | .asked peer jobId transferId =>
    if epoch ∈ s.epochs then none
    else some { s.withSession i (reserve s.files q peer jobId transferId epoch) with
      epochs := epoch :: s.epochs }
  | .publishing streams false ticket =>
    some { s.withSession i (q.withPhase (.publishing streams true ticket)) with
      files := { s.files with checkpoint := some (q.origin, streams) } }
  | .publishing streams true ticket =>
    some { s.withSession i (q.withPhase ((ticket.map SessionPhase.reserved).getD .idle)) with
      files := { s.files with issued := streams } }
  | .reserved ticket =>
    some (s.withSession i ((q.forget ticket.peer ticket.transferId).withPhase (.fencing ticket)))
  | .fencing ticket =>
    some { s.withSession i (q.withPhase (.sealing ticket)) with fenced := ticket :: s.fenced }
  | .sealing ticket =>
    some { s.withSession i (q.withPhase (.completing ticket.peer ticket.transferId)) with
      sealed := ticket :: s.sealed }
  | .completing peer transferId => some (s.withSession i (completed s.files q peer transferId))

/-- **One step.** -/
def next (s : TicketNumbering) : NumberingStep → Option TicketNumbering
  | .start i pid origin =>
    if s.processes i = none then
      some { s with processes := Function.update s.processes i (some ⟨pid, origin, [], .idle⟩) }
    else none
  | .fork i j pid =>
    match s.processes i, s.processes j with
    | some q, none =>
      some { s with processes := Function.update s.processes j (some { q with pid := pid, phase := .idle }) }
    | _, _ => none
  | .crash i =>
    some { s with
      processes := Function.update s.processes i none
      holder := if s.holder = some i then none else s.holder }
  | .restore files => some { s with files := files }
  | .ask i peer jobId transferId => s.enter i (.asked peer jobId transferId)
  | .resume i ticket => if ticket ∈ s.fenced then s.enter i (.sealing ticket) else none
  | .retire i peer transferId => s.enter i (.completing peer transferId)
  | .proceed i epoch => (s.processes i).bind fun q => s.proceed i q epoch
  | .raise i => (s.processes i).bind fun q =>
    if q.phase = .idle then none else some (s.withSession i (q.withPhase .idle))

/-- **The runs**, from a workspace from which nothing was detached yet. -/
def numberingRuns : System TicketNumbering NumberingStep :=
  System.ofNext (fun s => (∀ i, s.processes i = none) ∧ s.epochs = [] ∧ s.fenced = [] ∧ s.sealed = [])
    next

/-- **No transfer is numbered twice.** -/
def Distinct (s : TicketNumbering) : Prop :=
  ∀ t ∈ s.sealed, ∀ t' ∈ s.sealed, t.peer = t'.peer → t.epoch = t'.epoch →
    t.sequence = t'.sequence → t = t'

/-- **A fork has no stream of its own** in the memory it inherits. -/
def ForksAfresh (s : TicketNumbering) : NumberingStep → Prop
  | .fork i _ pid => ∀ q, s.processes i = some q → ∀ peer, q.streams.get ⟨pid, q.origin, peer⟩ = none
  | _ => True

end TicketNumbering

/-! ## The stream of a process -/

section Streams

variable {q : Session} {peer peer' jobId transferId epoch : PyStr} {stream : IssuedStream}
variable {fenced : List Ticket} {ticket : Ticket} {files : AllocatorFiles}

@[simp] theorem own_withOwn : (q.withOwn peer stream).own peer'
    = if peer' = peer then some stream else q.own peer' := by
  show Dict.get (q.streams.set (q.key peer) stream) (q.key peer') = _
  rw [Dict.get_set]
  by_cases h : peer' = peer
  · rw [h, if_pos rfl, if_pos rfl]
  · have hne : q.key peer' ≠ q.key peer := fun heq => h (SessionKey.mk.inj heq).2.2
    rw [if_neg hne, if_neg h]
    rfl

@[simp] theorem own_withPhase (phase : SessionPhase) : (q.withPhase phase).own peer = q.own peer := rfl

/-- **The numbers of a stream**: each is counted, reserved once, and not reserved any more once a
job was fenced under it. -/
structure IssuedStream.Sound (stream : IssuedStream) (fenced : List Ticket) : Prop where
  counted : ∀ e ∈ stream.pending, e.snd.snd ≤ stream.last
  once : ∀ e ∈ stream.pending, ∀ e' ∈ stream.pending, e.snd.snd = e'.snd.snd → e = e'
  taken : ∀ t ∈ fenced, t.epoch = stream.epoch →
    t.sequence ≤ stream.last ∧ ∀ e ∈ stream.pending, e.snd.snd ≠ t.sequence

theorem sound_new (hnew : ∀ t ∈ fenced, t.epoch ≠ epoch) : (⟨epoch, 0, []⟩ : IssuedStream).Sound fenced :=
  ⟨fun _ h => absurd h List.not_mem_nil, fun _ h => absurd h List.not_mem_nil, fun t ht heq => absurd heq (hnew t ht)⟩

theorem IssuedStream.Sound.of_subset {pending : Dict PyStr (PyStr × ℕ)} (h : stream.Sound fenced)
    (hsub : ∀ e ∈ pending, e ∈ stream.pending) :
    ({ stream with pending := pending } : IssuedStream).Sound fenced :=
  ⟨fun e he => h.counted e (hsub e he), fun e he e' he' => h.once e (hsub e he) e' (hsub e' he'),
    fun t ht heq => ⟨(h.taken t ht heq).1, fun e he => (h.taken t ht heq).2 e (hsub e he)⟩⟩

theorem IssuedStream.Sound.count (h : stream.Sound fenced) : (stream.count transferId jobId).Sound fenced := by
  have hold : ∀ e ∈ stream.pending.set transferId (jobId, stream.last + 1),
      e = (transferId, (jobId, stream.last + 1)) ∨ e ∈ stream.pending := by
    intro e he
    rcases List.mem_cons.mp he with heq | he
    · exact Or.inl heq
    · exact Or.inr (List.mem_filter.mp he).1
  constructor
  · intro e he
    rcases hold e he with rfl | he
    · exact Nat.le_refl _
    · exact Nat.le_trans (h.counted e he) (Nat.le_succ _)
  · intro e he e' he' heq
    rcases hold e he with rfl | he
    · rcases hold e' he' with rfl | he'
      · rfl
      · have hle := h.counted e' he'
        rw [← heq] at hle
        exact absurd hle (Nat.not_succ_le_self _)
    · rcases hold e' he' with rfl | he'
      · have hle := h.counted e he
        rw [heq] at hle
        exact absurd hle (Nat.not_succ_le_self _)
      · exact h.once e he e' he' heq
  · intro t ht heq
    obtain ⟨hle, hne⟩ := h.taken t ht heq
    refine ⟨Nat.le_trans hle (Nat.le_succ _), fun e he => ?_⟩
    rcases hold e he with rfl | he
    · exact fun hsame => absurd (hsame ▸ hle) (Nat.not_succ_le_self _)
    · exact hne e he

/-- **What a stream knows of a ticket** that is on its way. -/
def Session.InFlight (q : Session) (fenced : List Ticket) : Prop :=
  match q.phase with
  | .publishing _ _ (some t) | .reserved t => ∃ stream, q.own t.peer = some stream
      ∧ stream.epoch = t.epoch ∧ (t.transferId, (t.jobId, t.sequence)) ∈ stream.pending
  | .fencing t => ∃ stream, q.own t.peer = some stream ∧ stream.epoch = t.epoch
      ∧ t.sequence ≤ stream.last ∧ (∀ e ∈ stream.pending, e.snd.snd ≠ t.sequence)
      ∧ ∀ t' ∈ fenced, t'.epoch = t.epoch → t'.sequence ≠ t.sequence
  | .sealing t => t ∈ fenced
  | _ => True

theorem nextStream_cases (epoch : PyStr) (current onDisk : Option IssuedStream) :
    nextStream epoch current onDisk = ⟨epoch, 0, []⟩
      ∨ ∃ st pending, current = some st ∧ nextStream epoch current onDisk = { st with pending := pending }
        ∧ ∀ e ∈ pending, e ∈ st.pending := by
  unfold nextStream
  split
  · rename_i st stream
    split_ifs
    · exact Or.inr ⟨st, st.pending, rfl, rfl, fun _ h => h⟩
    · exact Or.inl rfl
    · exact Or.inr ⟨st, [], rfl, rfl, fun _ h => absurd h List.not_mem_nil⟩
  · exact Or.inl rfl

theorem reserve_spec (files : AllocatorFiles) (q : Session) (peer jobId transferId epoch : PyStr) (fenced : List Ticket)
    (hsound : ∀ st, q.own peer = some st → st.Sound fenced) (hnew : ∀ t ∈ fenced, t.epoch ≠ epoch) :
    ∃ stream phase, reserve files q peer jobId transferId epoch = (q.withOwn peer stream).withPhase phase
      ∧ stream.Sound fenced
      ∧ (stream.epoch = epoch ∨ ∃ st, q.own peer = some st ∧ stream.epoch = st.epoch)
      ∧ ((q.withOwn peer stream).withPhase phase).InFlight fenced := by
  have hnext : ∃ stream, nextStream epoch (q.own peer)
        ((if files.agrees q.origin = true then files.issued else []).get peer) = stream
      ∧ stream.Sound fenced
      ∧ (stream.epoch = epoch ∨ ∃ st, q.own peer = some st ∧ stream.epoch = st.epoch) := by
    rcases nextStream_cases epoch (q.own peer)
      ((if files.agrees q.origin = true then files.issued else []).get peer) with
      heq | ⟨st, pending, hst, heq, hsub⟩
    · exact ⟨_, heq, sound_new hnew, Or.inl rfl⟩
    · exact ⟨_, heq, (hsound st hst).of_subset hsub, Or.inr ⟨st, hst, rfl⟩⟩
  obtain ⟨stream, heq, hstream, hepoch⟩ := hnext
  unfold reserve
  simp only [heq]
  split
  · rename_i identifier jobId' sequence hfind
    have hjob : jobId' = jobId := by simpa using List.find?_some hfind
    have hmem := List.mem_of_find?_eq_some hfind
    rw [hjob] at hmem
    refine ⟨stream, _, rfl, hstream, hepoch, stream, ?_, rfl, hmem⟩
    rw [own_withPhase, own_withOwn, if_pos rfl]
  · refine ⟨_, _, rfl, hstream.count, hepoch, stream.count transferId jobId, ?_, rfl, List.mem_cons_self⟩
    rw [own_withPhase, own_withOwn, if_pos rfl]

theorem own_forget (h : (q.forget peer transferId).own peer' = some stream) :
    ∃ st pending, q.own peer' = some st ∧ stream = { st with pending := pending } ∧ (∀ e ∈ pending, e ∈ st.pending)
      ∧ (peer' = peer → ∀ e ∈ pending, e.fst ≠ transferId) := by
  unfold Session.forget at h
  cases hown : q.own peer with
  | none =>
    rw [hown] at h
    refine ⟨stream, stream.pending, h, rfl, fun _ he => he, fun heq => ?_⟩
    rw [heq, hown] at h
    cases h
  | some st =>
    rw [hown] at h
    simp only [own_withOwn] at h
    split_ifs at h with heq
    · refine ⟨st, _, heq ▸ hown, (Option.some.inj h).symm, fun e he => (List.mem_filter.mp he).1, fun _ e he => ?_⟩
      simpa using (List.mem_filter.mp he).2
    · exact ⟨stream, stream.pending, h, rfl, fun _ he => he, fun hpeer => absurd hpeer heq⟩

end Streams

namespace TicketNumbering

variable {s s' : TicketNumbering} {i : ℕ} {q q' : Session} {epoch : PyStr} {epochs : List PyStr}

/-! ## The invariant -/

/-- **Every number is given once**: a stream that a process may count on is its own alone, its
numbers are sound, and so is what is on its way. -/
structure Numbered (s : TicketNumbering) : Prop where
  known : ∀ i q k st, s.processes i = some q → q.streams.get k = some st → st.epoch ∈ s.epochs
  knownFenced : ∀ t ∈ s.fenced, t.epoch ∈ s.epochs
  apart : ∀ i q peer st j r peer' st', s.processes i = some q → q.own peer = some st →
    s.processes j = some r → r.own peer' = some st' → st.epoch = st'.epoch → i = j ∧ peer = peer'
  sound : ∀ i q peer st, s.processes i = some q → q.own peer = some st → st.Sound s.fenced
  inFlight : ∀ i q, s.processes i = some q → q.InFlight s.fenced
  unique : ∀ t ∈ s.fenced, ∀ t' ∈ s.fenced, t.epoch = t'.epoch → t.sequence = t'.sequence → t = t'
  sealed : ∀ t ∈ s.sealed, t ∈ s.fenced

variable {files : AllocatorFiles} {holder : Option ℕ}

theorem Numbered.update (hs : Numbered s) (hq : s.processes i = some q) (hsub : ∀ e ∈ s.epochs, e ∈ epochs)
    (hknown : ∀ k st, q'.streams.get k = some st → st.epoch ∈ epochs)
    (hown : ∀ peer st, q'.own peer = some st → (∃ st₀, q.own peer = some st₀ ∧ st.epoch = st₀.epoch)
        ∨ (st.epoch ∉ s.epochs ∧ ∀ peer' st', q'.own peer' = some st' → st'.epoch = st.epoch → peer = peer'))
    (hsound : ∀ peer st, q'.own peer = some st → st.Sound s.fenced)
    (hflight : q'.InFlight s.fenced) :
    Numbered ⟨files, Function.update s.processes i (some q'), holder, epochs, s.fenced, s.sealed⟩ := by
  have hproc : ∀ {j : ℕ} {r : Session}, Function.update s.processes i (some q') j = some r →
      j = i ∧ r = q' ∨ j ≠ i ∧ s.processes j = some r := by
    intro j r h
    rw [Function.update_apply] at h
    split_ifs at h with hj
    · exact Or.inl ⟨hj, (Option.some.inj h).symm⟩
    · exact Or.inr ⟨hj, h⟩
  -- an own stream of another process has an epoch that is known
  have hother : ∀ {j : ℕ} {r : Session} {peer : PyStr} {st : IssuedStream}, s.processes j = some r →
      r.own peer = some st → st.epoch ∈ s.epochs := fun hr hst => hs.known _ _ _ _ hr hst
  refine ⟨fun j r k st hr hst => ?_, fun t ht => hsub _ (hs.knownFenced t ht), ?_,
    fun j r peer st hr hst => ?_, fun j r hr => ?_, hs.unique, hs.sealed⟩
  · rcases hproc hr with ⟨-, rfl⟩ | ⟨-, hr⟩
    · exact hknown k st hst
    · exact hsub _ (hs.known j r k st hr hst)
  · intro j r peer st j' r' peer' st' hr₁ hst hr₂ hst' heq
    rcases hproc hr₁ with ⟨hj, rfl⟩ | ⟨-, hr⟩
    · rcases hproc hr₂ with ⟨hj', rfl⟩ | ⟨-, hr'⟩
      · refine ⟨hj.trans hj'.symm, ?_⟩
        rcases hown peer st hst with ⟨st₀, hst₀, hepoch⟩ | ⟨-, hpeers⟩
        · rcases hown peer' st' hst' with ⟨st₀', hst₀', hepoch'⟩ | ⟨hnew, -⟩
          · exact (hs.apart i q peer st₀ i q peer' st₀' hq hst₀ hq hst₀' (hepoch.symm.trans (heq.trans hepoch'))).2
          · rw [← heq, hepoch] at hnew
            exact absurd (hother hq hst₀) hnew
        · exact hpeers peer' st' hst' heq.symm
      · rcases hown peer st hst with ⟨st₀, hst₀, hepoch⟩ | ⟨hnew, -⟩
        · obtain ⟨hi, hpeer⟩ := hs.apart i q peer st₀ j' r' peer' st' hq hst₀ hr' hst' (hepoch.symm.trans heq)
          exact ⟨hj.trans hi, hpeer⟩
        · rw [heq] at hnew
          exact absurd (hother hr' hst') hnew
    · rcases hproc hr₂ with ⟨hj', rfl⟩ | ⟨-, hr'⟩
      · rcases hown peer' st' hst' with ⟨st₀', hst₀', hepoch'⟩ | ⟨hnew, -⟩
        · obtain ⟨hi, hpeer⟩ := hs.apart j r peer st i q peer' st₀' hr hst hq hst₀' (heq.trans hepoch')
          exact ⟨hi.trans hj'.symm, hpeer⟩
        · rw [← heq] at hnew
          exact absurd (hother hr hst) hnew
      · exact hs.apart j r peer st j' r' peer' st' hr hst hr' hst' heq
  · rcases hproc hr with ⟨-, rfl⟩ | ⟨-, hr⟩
    · exact hsound peer st hst
    · exact hs.sound j r peer st hr hst
  · rcases hproc hr with ⟨-, rfl⟩ | ⟨-, hr⟩
    · exact hflight
    · exact hs.inFlight j r hr

theorem Numbered.fewer (hs : Numbered s) (hq : s.processes i = some q)
    (hown : ∀ peer st, q'.own peer = some st → ∃ st₀ pending, q.own peer = some st₀
      ∧ st = { st₀ with pending := pending } ∧ ∀ e ∈ pending, e ∈ st₀.pending)
    (hknown : ∀ k st, q'.streams.get k = some st → ∃ st₀, q.streams.get k = some st₀ ∧ st.epoch = st₀.epoch)
    (hflight : q'.InFlight s.fenced) :
    Numbered ⟨files, Function.update s.processes i (some q'), holder, s.epochs, s.fenced, s.sealed⟩ := by
  refine hs.update hq (fun _ h => h) (fun k st hst => ?_) (fun peer st hst => ?_) (fun peer st hst => ?_) hflight
  · obtain ⟨st₀, hst₀, hepoch⟩ := hknown k st hst
    rw [hepoch]
    exact hs.known i q k st₀ hq hst₀
  · obtain ⟨st₀, pending, hst₀, rfl, -⟩ := hown peer st hst
    exact Or.inl ⟨st₀, hst₀, rfl⟩
  · obtain ⟨st₀, pending, hst₀, rfl, hsub⟩ := hown peer st hst
    exact (hs.sound i q peer st₀ hq hst₀).of_subset hsub

variable {phase : SessionPhase}

theorem Numbered.withPhase (hs : Numbered s) (hq : s.processes i = some q) (hflight :
    (q.withPhase phase).InFlight s.fenced) :
    Numbered ⟨files, Function.update s.processes i (some (q.withPhase phase)), holder, s.epochs,
      s.fenced, s.sealed⟩ :=
  hs.fewer hq (fun _ st hst => ⟨st, st.pending, hst, rfl, fun _ h => h⟩) (fun _ st hst => ⟨st, hst, rfl⟩) hflight

/-! ## The steps -/

theorem Numbered.fence {t : Ticket} (hs : Numbered s) (hq : s.processes i = some q) (hphase : q.phase = .fencing t) :
    Numbered ⟨files, Function.update s.processes i (some (q.withPhase (.sealing t))), holder,
      s.epochs, t :: s.fenced, s.sealed⟩ := by
  obtain ⟨st, hst, hepoch, hle, hpending, hfree⟩ : ∃ st, q.own t.peer = some st ∧ st.epoch = t.epoch
      ∧ t.sequence ≤ st.last ∧ (∀ e ∈ st.pending, e.snd.snd ≠ t.sequence)
      ∧ ∀ t' ∈ s.fenced, t'.epoch = t.epoch → t'.sequence ≠ t.sequence := by
    have hflight := hs.inFlight i q hq
    unfold Session.InFlight at hflight
    rwa [hphase] at hflight
  have hproc : ∀ {j : ℕ} {r : Session}, Function.update s.processes i (some (q.withPhase (.sealing t))) j = some r →
        j = i ∧ r = q.withPhase (.sealing t) ∨ j ≠ i ∧ s.processes j = some r := by
    intro j r h
    rw [Function.update_apply] at h
    split_ifs at h with hj
    · exact Or.inl ⟨hj, (Option.some.inj h).symm⟩
    · exact Or.inr ⟨hj, h⟩
  -- each own stream is one that a process had before
  have hbefore : ∀ {j : ℕ} {r : Session} {peer : PyStr} {st' : IssuedStream},
      Function.update s.processes i (some (q.withPhase (.sealing t))) j = some r →
        r.own peer = some st' → ∃ r', s.processes j = some r' ∧ r'.own peer = some st' := by
    intro j r peer st' hr hst'
    rcases hproc hr with ⟨rfl, rfl⟩ | ⟨-, hr⟩
    · exact ⟨q, hq, hst'⟩
    · exact ⟨r, hr, hst'⟩
  refine ⟨fun j r k st' hr hst' => ?_, fun t' ht' => ?_, ?_, fun j r peer st' hr hst' => ?_,
    fun j r hr => ?_, fun t₁ h₁ t₂ h₂ heq hseq => ?_, fun t' ht' => List.mem_cons_of_mem _ (hs.sealed t' ht')⟩
  · rcases hproc hr with ⟨-, rfl⟩ | ⟨-, hr⟩
    · exact hs.known i q k st' hq hst'
    · exact hs.known j r k st' hr hst'
  · rcases List.mem_cons.mp ht' with rfl | ht'
    · rw [← hepoch]
      exact hs.known i q _ st hq hst
    · exact hs.knownFenced t' ht'
  · intro j r peer st₁ j' r' peer' st₂ hr hst₁ hr' hst₂ heq
    obtain ⟨r₁, hr₁, hst₁⟩ := hbefore hr hst₁
    obtain ⟨r₂, hr₂, hst₂⟩ := hbefore hr' hst₂
    exact hs.apart j r₁ peer st₁ j' r₂ peer' st₂ hr₁ hst₁ hr₂ hst₂ heq
  · obtain ⟨r', hr', hst'⟩ := hbefore hr hst'
    have hold := hs.sound j r' peer st' hr' hst'
    refine ⟨hold.counted, hold.once, fun t' ht' heq => ?_⟩
    rcases List.mem_cons.mp ht' with rfl | ht'
    · obtain ⟨rfl, rfl⟩ := hs.apart i q t'.peer st j r' peer st' hq hst hr' hst' (hepoch.trans heq)
      obtain rfl : q = r' := Option.some.inj (hq.symm.trans hr')
      obtain rfl : st = st' := Option.some.inj (hst.symm.trans hst')
      exact ⟨hle, hpending⟩
    · exact hold.taken t' ht' heq
  · rcases hproc hr with ⟨-, rfl⟩ | ⟨hj, hbeside⟩
    · exact List.mem_cons_self
    · have hflight := hs.inFlight j r hbeside
      unfold Session.InFlight at hflight ⊢
      cases hr' : r.phase with
      | fencing t' =>
        rw [hr'] at hflight
        obtain ⟨st', hst', hepoch', hle', hpending', hfree'⟩ := hflight
        refine ⟨st', hst', hepoch', hle', hpending', fun t'' ht'' heq => ?_⟩
        rcases List.mem_cons.mp ht'' with rfl | ht''
        · have hi := hs.apart i q t''.peer st j r t'.peer st' hq hst hbeside hst'
            (hepoch.trans (heq.trans hepoch'.symm))
          exact absurd hi.1.symm hj
        · exact hfree' t'' ht'' heq
      | sealing t' =>
        rw [hr'] at hflight
        exact List.mem_cons_of_mem _ hflight
      | publishing streams checkpointed ticket =>
        rw [hr'] at hflight
        cases ticket with
        | none => trivial
        | some t' => exact hflight
      | _ =>
        rw [hr'] at hflight
        exact hflight
  · rcases List.mem_cons.mp h₁ with hnew | hold
    · rcases List.mem_cons.mp h₂ with hnew' | hold'
      · exact hnew.trans hnew'.symm
      · rw [hnew] at heq hseq
        exact absurd hseq.symm (hfree t₂ hold' heq.symm)
    · rcases List.mem_cons.mp h₂ with hnew' | hold'
      · rw [hnew'] at heq hseq
        exact absurd hseq (hfree t₁ hold heq)
      · exact hs.unique t₁ hold t₂ hold' heq hseq

theorem Numbered.reserve {peer jobId transferId : PyStr}
    (hs : Numbered s) (hq : s.processes i = some q) (hnew : epoch ∉ s.epochs) :
    Numbered ⟨files, Function.update s.processes i
      (some (reserve s.files q peer jobId transferId epoch)), holder, epoch :: s.epochs, s.fenced,
      s.sealed⟩ := by
  obtain ⟨stream, phase, heq, hsound, hepoch, hflight⟩ := reserve_spec s.files q peer jobId
    transferId epoch s.fenced (fun st hst => hs.sound i q peer st hq hst)
    fun t ht hsame => hnew (hsame ▸ hs.knownFenced t ht)
  rw [heq]
  have hcases : ∀ peer' st, ((q.withOwn peer stream).withPhase phase).own peer' = some st →
      peer' = peer ∧ st = stream ∨ peer' ≠ peer ∧ q.own peer' = some st := by
    intro peer' st h
    rw [own_withPhase, own_withOwn] at h
    split_ifs at h with hpeer
    · exact Or.inl ⟨hpeer, (Option.some.inj h).symm⟩
    · exact Or.inr ⟨hpeer, h⟩
  have hknown : ∀ peer' st, q.own peer' = some st → st.epoch ∈ s.epochs := fun peer' st h =>
    hs.known i q _ st hq h
  refine hs.update hq (fun e he => List.mem_cons_of_mem _ he) (fun k st hst => ?_)
    (fun peer' st hst => ?_) (fun peer' st hst => ?_) hflight
  · have hst : Dict.get (q.streams.set (q.key peer) stream) k = some st := hst
    rw [Dict.get_set] at hst
    split_ifs at hst
    · rw [← Option.some.inj hst]
      rcases hepoch with hfresh | ⟨st₀, hst₀, hsame⟩
      · rw [hfresh]
        exact List.mem_cons_self
      · rw [hsame]
        exact List.mem_cons_of_mem _ (hknown peer st₀ hst₀)
    · exact List.mem_cons_of_mem _ (hs.known i q k st hq hst)
  · rcases hcases peer' st hst with ⟨rfl, rfl⟩ | ⟨-, hst⟩
    · rcases hepoch with hfresh | ⟨st₀, hst₀, hsame⟩
      · refine Or.inr ⟨by rwa [hfresh], fun peer'' st' hst' hsame => ?_⟩
        rcases hcases peer'' st' hst' with ⟨rfl, -⟩ | ⟨-, hst'⟩
        · rfl
        · rw [hfresh] at hsame
          exact absurd (hsame ▸ hknown peer'' st' hst') hnew
      · exact Or.inl ⟨st₀, hst₀, hsame⟩
    · exact Or.inl ⟨st, hst, rfl⟩
  · rcases hcases peer' st hst with ⟨rfl, rfl⟩ | ⟨-, hst⟩
    · exact hsound
    · exact hs.sound i q peer' st hq hst

variable {peer transferId : PyStr}

theorem get_forget {k : SessionKey} {st : IssuedStream} (h : (q.forget peer transferId).streams.get k = some st) :
    ∃ st₀, q.streams.get k = some st₀ ∧ st.epoch = st₀.epoch := by
  unfold Session.forget at h
  cases hown : q.own peer with
  | none =>
    rw [hown] at h
    exact ⟨st, h, rfl⟩
  | some stream =>
    rw [hown] at h
    have h : Dict.get (q.streams.set (q.key peer) _) k = some st := h
    rw [Dict.get_set] at h
    split_ifs at h with hk
    · exact ⟨stream, hk ▸ hown, (Option.some.inj h) ▸ rfl⟩
    · exact ⟨st, h, rfl⟩

theorem Numbered.forget (hs : Numbered s) (hq : s.processes i = some q)
    (hflight : ((q.forget peer transferId).withPhase phase).InFlight s.fenced) :
    Numbered ⟨files, Function.update s.processes i (some ((q.forget peer transferId).withPhase phase)),
      holder, s.epochs, s.fenced, s.sealed⟩ := by
  refine hs.fewer hq (fun peer' st hst => ?_) (fun k st hst => get_forget hst) hflight
  obtain ⟨st₀, pending, hst₀, heq, hsub, -⟩ := own_forget hst
  exact ⟨st₀, pending, hst₀, heq, hsub⟩

theorem inFlight_fencing {t : Ticket} (hs : Numbered s) (hq : s.processes i = some q) (hphase : q.phase = .reserved t) :
    ((q.forget t.peer t.transferId).withPhase (.fencing t)).InFlight s.fenced := by
  obtain ⟨st, hst, hepoch, hmem⟩ : ∃ st, q.own t.peer = some st ∧ st.epoch = t.epoch
      ∧ (t.transferId, (t.jobId, t.sequence)) ∈ st.pending := by
    have hflight := hs.inFlight i q hq
    unfold Session.InFlight at hflight
    rwa [hphase] at hflight
  have hsound := hs.sound i q t.peer st hq hst
  have hown : (q.forget t.peer t.transferId).own t.peer
      = some { st with pending := st.pending.without [t.transferId] } := by
    unfold Session.forget
    rw [hst]
    simp
  refine ⟨_, hown, hepoch, hsound.counted _ hmem, fun e he hseq => ?_, fun t' ht' heq hseq => ?_⟩
  · obtain ⟨hold, hne⟩ := List.mem_filter.mp he
    have hsame := hsound.once e hold _ hmem hseq
    rw [hsame] at hne
    simp at hne
  · exact (hsound.taken t' ht' (heq.trans hepoch.symm)).2 _ hmem hseq.symm

theorem Numbered.proceed (hs : Numbered s) (hq : s.processes i = some q)
    (h : s.proceed i q epoch = some s') : Numbered s' := by
  have hflight := hs.inFlight i q hq
  unfold Session.InFlight at hflight
  unfold TicketNumbering.proceed at h
  cases hphase : q.phase with
  | idle =>
    rw [hphase] at h
    cases h
  | asked peer jobId transferId =>
    simp only [hphase] at h
    split_ifs at h with hepoch
    rw [← Option.some.inj h]
    exact hs.reserve hq hepoch
  | publishing streams checkpointed ticket =>
    simp only [hphase] at h hflight
    cases checkpointed with
    | false =>
      rw [← Option.some.inj h]
      refine hs.withPhase hq ?_
      cases ticket with
      | none => trivial
      | some t => exact hflight
    | true =>
      rw [← Option.some.inj h]
      refine hs.withPhase hq ?_
      cases ticket with
      | none => trivial
      | some t => exact hflight
  | reserved t =>
    simp only [hphase] at h
    rw [← Option.some.inj h]
    exact hs.forget hq (inFlight_fencing hs hq hphase)
  | fencing t =>
    simp only [hphase] at h
    rw [← Option.some.inj h]
    exact hs.fence hq hphase
  | sealing t =>
    simp only [hphase] at h hflight
    rw [← Option.some.inj h]
    have hkept : Numbered (s.withSession i (q.withPhase (.completing t.peer t.transferId))) :=
      hs.withPhase hq trivial
    exact ⟨hkept.known, hkept.knownFenced, hkept.apart, hkept.sound, hkept.inFlight, hkept.unique,
      fun t' ht' => (List.mem_cons.mp ht').elim (fun heq => heq ▸ hflight) (hs.sealed t')⟩
  | completing peer transferId =>
    simp only [hphase] at h
    rw [← Option.some.inj h]
    refine hs.forget hq ?_
    split_ifs
    · split
      · split_ifs
        · trivial
        · trivial
      · trivial
    · trivial

theorem Numbered.enter (hs : Numbered s) (h : s.enter i phase = some s')
    (hflight : ∀ q : Session, (q.withPhase phase).InFlight s.fenced) : Numbered s' := by
  unfold TicketNumbering.enter at h
  cases hq : s.processes i with
  | none =>
    rw [hq] at h
    cases h
  | some q =>
    rw [hq] at h
    obtain ⟨-, h⟩ := Option.ite_none_right_eq_some.mp h
    rw [← Option.some.inj h]
    exact hs.withPhase hq (hflight q)

theorem Numbered.join {j : ℕ} {r : Session} (hs : Numbered s)
    (hown : ∀ peer, r.own peer = none) (hidle : r.phase = .idle)
    (hknown : ∀ k st, r.streams.get k = some st → st.epoch ∈ s.epochs) :
    Numbered { s with processes := Function.update s.processes j (some r) } := by
  have hproc : ∀ {i : ℕ} {q : Session}, Function.update s.processes j (some r) i = some q →
      q = r ∨ s.processes i = some q := by
    intro i q h
    rw [Function.update_apply] at h
    split_ifs at h with hi
    · exact Or.inl (Option.some.inj h).symm
    · exact Or.inr h
  have hold : ∀ {i : ℕ} {q : Session} {peer : PyStr} {st : IssuedStream},
      Function.update s.processes j (some r) i = some q → q.own peer = some st →
        s.processes i = some q := by
    intro i q peer st h hst
    rcases hproc h with rfl | h
    · rw [hown] at hst
      cases hst
    · exact h
  refine ⟨fun i q k st h hst => ?_, hs.knownFenced, fun i q peer st i' q' peer' st' h hst h' hst' heq =>
      hs.apart i q peer st i' q' peer' st' (hold h hst) hst (hold h' hst') hst' heq,
    fun i q peer st h hst => hs.sound i q peer st (hold h hst) hst, fun i q h => ?_, hs.unique,
    hs.sealed⟩
  · rcases hproc h with rfl | h
    · exact hknown k st hst
    · exact hs.known i q k st h hst
  · rcases hproc h with rfl | h
    · unfold Session.InFlight
      rw [hidle]
      trivial
    · exact hs.inFlight i q h

/-- **Every step keeps the numbers apart**, if no fork finds a stream of its own. -/
theorem Numbered.next {a : NumberingStep} (hs : Numbered s) (hfork : ForksAfresh s a)
    (h : s.next a = some s') : Numbered s' := by
  cases a with
  | start i pid origin =>
    obtain ⟨-, h⟩ := Option.ite_none_right_eq_some.mp h
    rw [← Option.some.inj h]
    exact hs.join (fun _ => rfl) rfl fun k st hst => by cases hst
  | fork i j pid =>
    simp only [TicketNumbering.next] at h
    split at h
    · rename_i q hq hidle
      rw [← Option.some.inj h]
      exact hs.join (fun peer => hfork q hq peer) rfl fun k st hst => hs.known i q k st hq hst
    · cases h
  | crash i =>
    rw [← Option.some.inj h]
    have hproc : ∀ {j : ℕ} {r : Session}, Function.update s.processes i none j = some r → s.processes j = some r := by
      intro j r h
      rw [Function.update_apply] at h
      split_ifs at h
      exact h
    exact ⟨fun j r k st hr => hs.known j r k st (hproc hr), hs.knownFenced,
      fun j r peer st j' r' peer' st' hr hst hr' =>
        hs.apart j r peer st j' r' peer' st' (hproc hr) hst (hproc hr'),
      fun j r peer st hr => hs.sound j r peer st (hproc hr), fun j r hr => hs.inFlight j r (hproc hr),
      hs.unique, hs.sealed⟩
  | restore files =>
    rw [← Option.some.inj h]
    exact ⟨hs.known, hs.knownFenced, hs.apart, hs.sound, hs.inFlight, hs.unique, hs.sealed⟩
  | ask i peer jobId transferId => exact hs.enter h fun _ => trivial
  | resume i ticket =>
    obtain ⟨hmem, h⟩ := Option.ite_none_right_eq_some.mp h
    exact hs.enter h fun _ => hmem
  | retire i peer transferId => exact hs.enter h fun _ => trivial
  | proceed i epoch =>
    obtain ⟨q, hq, h⟩ := Option.bind_eq_some_iff.mp h
    exact hs.proceed hq h
  | raise i =>
    obtain ⟨q, hq, h⟩ := Option.bind_eq_some_iff.mp h
    split_ifs at h
    rw [← Option.some.inj h]
    exact hs.withPhase hq trivial

/-- **No two transfers are sealed under one number**, in any run whose forks begin without a stream
of their own. -/
theorem tickets_distinct (h : (numberingRuns.guarded ForksAfresh).Reachable s) : Distinct s := by
  have hs : Numbered s := by
    refine h.invariant (fun s hinit => ?_) fun s a s' _ hs hstep => hs.next hstep.2 hstep.1
    obtain ⟨hprocesses, hepochs, hfenced, hsealed⟩ := hinit
    have hnone : ∀ i q, s.processes i ≠ some q := fun i q hq => by
      rw [hprocesses] at hq
      cases hq
    have hempty : ∀ t, t ∉ s.fenced := fun t ht => by
      rw [hfenced] at ht
      cases ht
    exact ⟨fun i q k st hq => absurd hq (hnone i q), fun t ht => absurd ht (hempty t),
      fun i q peer st j r peer' st' hq => absurd hq (hnone i q),
      fun i q peer st hq => absurd hq (hnone i q), fun i q hq => absurd hq (hnone i q),
      fun t ht => absurd ht (hempty t), fun t ht => by
        rw [hsealed] at ht
        cases ht⟩
  exact fun t ht t' ht' _ hepoch hseq =>
    hs.unique t (hs.sealed t ht) t' (hs.sealed t' ht') hepoch hseq

/-! ## A process id that comes back -/

def unused : TicketNumbering where
  files := ⟨[], none⟩
  processes := fun _ => none
  holder := none
  epochs := []
  fenced := []
  sealed := []

def sharedOrigin : Origin := ⟨"host", "/w", 1, 2⟩

def detaches (i : ℕ) (jobId transferId epoch : PyStr) : List NumberingStep :=
  .ask i "peer" jobId transferId :: List.replicate 9 (.proceed i epoch)

/-- A job is detached before a fork and one after it, by a process that ends. Another process
detaches a job of its own. The fork forks a process that gets the id of the first. -/
def recycled : List NumberingStep :=
  .start 0 100 sharedOrigin :: detaches 0 "a" "t1" "e1" ++ .fork 0 1 200 :: detaches 0 "b" "t2" "e2"
    ++ .crash 0 :: .start 2 300 sharedOrigin :: detaches 2 "c" "t3" "e3" ++ .crash 2 :: .fork 1 3 100
      :: detaches 3 "d" "t4" "e4"

/-- **Two transfers under one number**, one sealed by each of two processes with the same id. -/
theorem ticket_reissued : ¬∀ s : TicketNumbering, numberingRuns.Reachable s → Distinct s := by
  intro hall
  have hrun : (System.follow next unused recycled).map (fun s => s.sealed)
      = some [⟨"peer", "d", "t4", "e1", 2⟩, ⟨"peer", "c", "t3", "e3", 1⟩, ⟨"peer", "b", "t2", "e1", 2⟩,
        ⟨"peer", "a", "t1", "e1", 1⟩] := by decide +kernel
  obtain ⟨s, hs, hsealed⟩ := Option.map_eq_some_iff.mp hrun
  have hreach : numberingRuns.Reachable s :=
    (System.run_of_follow hs).reachable (System.Reachable.init ⟨fun _ => rfl, rfl, rfl, rfl⟩)
  have hsame := hall s hreach ⟨"peer", "d", "t4", "e1", 2⟩ (by simp [hsealed])
    ⟨"peer", "b", "t2", "e1", 2⟩ (by simp [hsealed]) rfl rfl rfl
  exact absurd hsame (by decide)

/-- A fork of a process that detached a job detaches one of its own. -/
theorem tickets_distinct_forked : ∃ s : TicketNumbering,
    (numberingRuns.guarded ForksAfresh).Reachable s ∧ s.sealed.length = 2 ∧ Distinct s := by
  have hrun : ((System.follow next unused (.start 0 100 sharedOrigin :: detaches 0 "a" "t1" "e1")).bind
      fun s₁ => (s₁.next (.fork 0 1 200)).bind fun s₂ =>
        (System.follow next s₂ (detaches 1 "b" "t2" "e2")).map fun s₃ =>
          ((s₁.processes 0).map Session.streams, s₃.sealed.length))
      = some (some [(⟨100, sharedOrigin, "peer"⟩, ⟨"e1", 1, []⟩)], 2) := by decide +kernel
  obtain ⟨s₁, hs₁, hrun⟩ := Option.bind_eq_some_iff.mp hrun
  obtain ⟨s₂, hs₂, hrun⟩ := Option.bind_eq_some_iff.mp hrun
  obtain ⟨s₃, hs₃, hlook⟩ := Option.map_eq_some_iff.mp hrun
  obtain ⟨hstreams, hsealed⟩ := Prod.mk.inj hlook
  -- no step of a detached job is a fork
  have hplain : ∀ {i : ℕ} {jobId transferId epoch : PyStr}, ∀ a ∈ detaches i jobId transferId epoch,
      ∀ t, ForksAfresh t a := by
    intro i jobId transferId epoch a ha t
    rcases List.mem_cons.mp ha with rfl | ha
    · trivial
    · rw [List.eq_of_mem_replicate ha]
      trivial
  have hstart : (numberingRuns.guarded ForksAfresh).Reachable unused :=
    System.Reachable.init ⟨fun _ => rfl, rfl, rfl, rfl⟩
  have hfirst : (numberingRuns.guarded ForksAfresh).Reachable s₁ := by
    refine System.Run.reachable (System.Run.guarded (System.run_of_follow hs₁) fun a ha t => ?_) hstart
    rcases List.mem_cons.mp ha with rfl | ha
    · trivial
    · exact hplain a ha t
  have hfork : (numberingRuns.guarded ForksAfresh).Reachable s₂ := by
    refine hfirst.next (.fork 0 1 200) (fun q hq peer => ?_) hs₂
    rw [hq] at hstreams
    rw [Option.some.inj hstreams, Dict.get_cons, if_neg (fun h => absurd (SessionKey.mk.inj h).1 (by decide)),
      Dict.get_nil]
  have hreach : (numberingRuns.guarded ForksAfresh).Reachable s₃ :=
    System.Run.reachable (System.Run.guarded (System.run_of_follow hs₃) hplain) hfork
  exact ⟨s₃, hreach, hsealed, tickets_distinct hreach⟩

end TicketNumbering
