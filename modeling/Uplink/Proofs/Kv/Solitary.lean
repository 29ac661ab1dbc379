import Uplink.Proofs.Kv.Invariant

/-! # One caller at a time

A store whose callers come one after the other. Its commands are executed in the order of the
calls, so the backend is as good as where it will be once it has executed all that is on its
way. -/

namespace Uplink.Kv.Store

variable {σ : Type}

/-- No number is given twice. -/
structure Numbered (s : Store σ) : Prop where
  pending_lt : ∀ entry ∈ s.pending, entry.1 < s.nextId
  replies_lt : ∀ entry ∈ s.replies, entry.1 < s.nextId

theorem numbered_spawn (backend : σ) : (spawn backend).Numbered := by
  constructor <;> simp [spawn, pending, WorkerState.held]

/-- The store is open and its worker waits for a request, so that no time limit passes. -/
structure IsReady (s : Store σ) : Prop where
  isClosed : s.isClosed = false
  isStalled : s.isStalled = false
  worker : s.worker = .idle
  channel : s.channel = []

theorem isReady_spawn (backend : σ) : (spawn backend).IsReady :=
  ⟨rfl, rfl, rfl, rfl⟩

/-- The store when it has taken a command in, before the worker goes on. -/
def admitted (s : Store σ) (c : Command) : Store σ :=
  { s with channel := s.channel ++ [.command s.nextId c], nextId := s.nextId + 1 }

theorem pending_admitted (s : Store σ) (c : Command) :
    (s.admitted c).pending = s.pending ++ [(s.nextId, c)] := by
  simp [admitted, pending, Request.numbered?]

theorem Numbered.admitted {s : Store σ} (hs : s.Numbered) (c : Command) :
    (s.admitted c).Numbered where
  pending_lt entry hentry := by
    rw [pending_admitted] at hentry
    rcases List.mem_append.mp hentry with hentry | hentry
    · exact Nat.lt_succ_of_lt (hs.pending_lt entry hentry)
    · rw [List.mem_singleton.mp hentry]
      exact Nat.lt_succ_self _
  replies_lt entry hentry := Nat.lt_succ_of_lt (hs.replies_lt entry hentry)

variable [Backend σ]

/-- The backend once it has executed all that is on its way. -/
def flush (s : Store σ) : σ :=
  (Backend.run s.backend (s.pending.map Prod.snd)).2

/-! ## The worker -/

/-- What a step of the worker does: it executes the oldest command, or none. -/
inductive Works (s s' : Store σ) : Prop
  | still (hpending : s'.pending = s.pending) (hbackend : s'.backend = s.backend)
      (hreplies : s'.replies = s.replies) (hnext : s'.nextId = s.nextId)
  | execute {id c} (hpending : s.pending = (id, c) :: s'.pending)
      (hbackend : s'.backend = (Backend.execute s.backend c).2)
      (hreplies : s'.replies = ((Backend.execute s.backend c).1.map (id, ·)).toList ++ s.replies)
      (hnext : s'.nextId = s.nextId)

theorem works_of_take {s s' : Store σ} (h : s.take? = some s') : Works s s' := by
  cases hworker : s.worker with
  | idle =>
      cases hchannel : s.channel with
      | nil => simp [take?, hworker, hchannel] at h
      | cons request channel =>
          cases request with
          | command id c | shutdown =>
              simp only [take?, hworker, hchannel, Option.some.injEq] at h
              subst h
              refine .still ?_ rfl rfl rfl
              simp [pending, hworker, hchannel, WorkerState.held, Request.numbered?,
                List.filterMap_cons]
  | holding | stopped | broken => simp [take?, hworker] at h

theorem works_of_execute {s s' : Store σ} (h : s.execute? = some s') : Works s s' := by
  cases hworker : s.worker with
  | holding id c =>
      have hheld : s.pending = (id, c) :: s.channel.filterMap Request.numbered? := by
        simp [pending, hworker, WorkerState.held]
      rcases hexecute : Backend.execute s.backend c with ⟨reply | reply, backend⟩ <;>
        simp only [execute?, hworker, hexecute, Option.some.injEq] at h <;> subst h
      · exact .execute hheld (by simp [hexecute]) (by simp [hexecute]) rfl
      · exact .execute hheld (by simp [hexecute]) (by simp [hexecute]) rfl
  | idle | stopped | broken => simp [execute?, hworker] at h

theorem works_of_step {s s' : Store σ} (h : s.workerStep? = some s') : Works s s' := by
  unfold workerStep? at h
  split at h
  · exact works_of_take h
  · cases hexecute : s.execute? with
    | some s'' =>
        rw [hexecute] at h
        exact works_of_execute (hexecute.trans h)
    | none =>
        rw [hexecute] at h
        exact works_of_take h

/-- What every step of the worker keeps holds once it has settled. -/
theorem settle_induction {P : Store σ → Prop} {s : Store σ} (hs : P s)
    (hstep : ∀ {s s'}, P s → Works s s' → P s') : P s.settle := by
  rw [settle]
  generalize 2 * s.channel.length + 1 = steps
  induction steps generalizing s with
  | zero => exact hs
  | succ steps ih =>
      cases h : s.workerStep? with
      | none => simpa [runFor, h] using hs
      | some s' => simpa [runFor, h] using ih (hstep hs (works_of_step h))

theorem Works.flush_eq {s s' : Store σ} (h : Works s s') : s'.flush = s.flush := by
  cases h with
  | still hpending hbackend => simp [flush, hpending, hbackend]
  | execute hpending hbackend => simp [flush, hpending, hbackend, Backend.run]

theorem Works.numbered {s s' : Store σ} (hs : s.Numbered) (h : Works s s') : s'.Numbered := by
  cases h with
  | still hpending hbackend hreplies hnext =>
      constructor
      · rw [hpending, hnext]
        exact hs.pending_lt
      · rw [hreplies, hnext]
        exact hs.replies_lt
  | @execute id c hpending hbackend hreplies hnext =>
      have hold : ∀ entry ∈ (id, c) :: s'.pending, entry.1 < s.nextId := hpending ▸ hs.pending_lt
      constructor
      · intro entry hentry
        rw [hnext]
        exact hold entry (List.mem_cons_of_mem _ hentry)
      · intro entry hentry
        rw [hreplies] at hentry
        rw [hnext]
        rcases List.mem_append.mp hentry with hentry | hentry
        · obtain ⟨reply, -, rfl⟩ := Option.map_eq_some_iff.mp (Option.mem_toList.mp hentry)
          exact hold _ List.mem_cons_self
        · exact hs.replies_lt entry hentry

theorem flush_settle (s : Store σ) : s.settle.flush = s.flush :=
  settle_induction (P := fun s' => s'.flush = s.flush) rfl fun hs h => h.flush_eq.trans hs

theorem Numbered.settle {s : Store σ} (hs : s.Numbered) : s.settle.Numbered :=
  settle_induction hs Works.numbered

/-! ## A call -/

/-- A command with the number `id` is the last one on its way, and will meet the backend in the
state `b`; or it has met it there. -/
inductive Awaits (id : Nat) (c : Command) (b : σ) (s : Store σ) : Prop
  | underway {front} (hpending : s.pending = front ++ [(id, c)])
      (hothers : ∀ entry ∈ front, entry.1 ≠ id)
      (hbackend : (Backend.run s.backend (front.map Prod.snd)).2 = b)
      (hnone : s.replies.lookup id = none)
  | executed (hpending : s.pending = []) (hreply : s.replies.lookup id = (Backend.execute b c).1)

theorem Works.awaits {id : Nat} {c : Command} {b : σ} {s s' : Store σ} (hs : Awaits id c b s)
    (h : Works s s') : Awaits id c b s' := by
  cases h with
  | still hpending hbackend hreplies =>
      cases hs with
      | underway hlast hothers hmeets hnone =>
          exact .underway (hpending.trans hlast) hothers (hbackend ▸ hmeets) (hreplies ▸ hnone)
      | executed hdone hreply => exact .executed (hpending.trans hdone) (hreplies ▸ hreply)
  | @execute id' c' hpending hbackend hreplies =>
      cases hs with
      | executed hdone => simp [hdone] at hpending
      | @underway front hlast hothers hmeets hnone =>
          rw [hlast] at hpending
          cases front with
          | nil =>
              simp only [List.nil_append, List.cons.injEq, Prod.mk.injEq] at hpending
              obtain ⟨⟨rfl, rfl⟩, hrest⟩ := hpending
              refine .executed hrest.symm ?_
              have hmeets : s.backend = b := hmeets
              rw [hreplies, ← hmeets]
              cases (Backend.execute s.backend c).1 <;> simp [hnone]
          | cons entry front =>
              simp only [List.cons_append, List.cons.injEq] at hpending
              obtain ⟨rfl, hrest⟩ := hpending
              have hne : id' ≠ id := hothers _ List.mem_cons_self
              refine .underway hrest.symm
                (fun entry hentry => hothers entry (List.mem_cons_of_mem _ hentry)) ?_ ?_
              · simpa [Backend.run, hbackend] using hmeets
              · rw [hreplies]
                have hother : (id == id') = false := by simpa using hne.symm
                cases (Backend.execute s.backend c').1 <;> simp [hnone, List.lookup_cons, hother]

theorem Numbered.awaits {s : Store σ} (hs : s.Numbered) (c : Command) :
    Awaits s.nextId c s.flush (s.admitted c) := by
  refine .underway (pending_admitted s c) ?_ rfl ?_
  · intro entry hentry
    exact Nat.ne_of_lt (hs.pending_lt entry hentry)
  · apply List.lookup_eq_none_iff.mpr
    intro entry hentry
    simpa using Nat.ne_of_gt (hs.replies_lt entry hentry)

theorem flush_admitted (s : Store σ) (c : Command) :
    (s.admitted c).flush = (Backend.execute s.flush c).2 := by
  rw [flush, pending_admitted, List.map_append, List.map_singleton, Backend.run_concat]
  rfl

/-- The caller is told the outcome of its command, or that it took too long. -/
theorem replyTo_of_awaits {id : Nat} {c : Command} {b : σ} {s : Store σ} (h : Awaits id c b s) :
    s.replyTo id = .error .timeout ∨ (Backend.execute b c).1 = some (s.replyTo id) := by
  cases h with
  | underway _ _ _ hnone => exact .inl (by simp [replyTo, hnone])
  | executed _ hreply =>
      cases houtcome : (Backend.execute b c).1 with
      | none => exact .inl (by simp [replyTo, hreply, houtcome])
      | some reply => exact .inr (by simp [replyTo, hreply, houtcome])

/-- A command is refused and the store left as it was, or it will be executed after all others; a
caller who does not give up too early is told the outcome. -/
theorem request_cases {s : Store σ} (hs : s.Numbered) (c : Command) :
    (∃ e, (e = .closed ∨ e = .queueFull) ∧ s.request c = (.error e, s)) ∨
      (s.request c).2.Numbered ∧ (s.request c).2.flush = (Backend.execute s.flush c).2 ∧
        ((s.request c).1 = .error .timeout ∨
          (Backend.execute s.flush c).1 = some (s.request c).1) := by
  cases hclosed : s.isClosed with
  | true => exact .inl ⟨.closed, .inl rfl, by simp [request, offer, hclosed]⟩
  | false =>
      by_cases hroom : s.channel.length < channelDepth
      · right
        have hrequest : s.request c =
            ((s.admitted c).settle.replyTo s.nextId, (s.admitted c).settle) := by
          simp [request, offer, hclosed, admit?, enqueue?, hroom, admitted]
        rw [hrequest]
        refine ⟨(hs.admitted c).settle, ?_, ?_⟩
        · exact (flush_settle _).trans (flush_admitted s c)
        · exact replyTo_of_awaits (settle_induction (hs.awaits c) Works.awaits)
      · refine .inl ⟨.queueFull, .inr rfl, ?_⟩
        simp [request, offer, hclosed, admit?, enqueue?, hroom]

/-! ## A store that keeps up -/

/-- A store that keeps up gives the answer of its backend and is ready for the next command. -/
theorem IsReady.request {s : Store σ} (hs : s.IsReady) {c : Command} {reply : Reply} {backend : σ}
    (h : Backend.execute s.backend c = (some reply, backend)) :
    (s.request c).1 = reply ∧ (s.request c).2.IsReady ∧ (s.request c).2.backend = backend := by
  obtain ⟨hclosed, hstalled, hworker, hchannel⟩ := hs
  have hsettled : (s.admitted c).settle =
      { s with backend, replies := (s.nextId, reply) :: s.replies, nextId := s.nextId + 1 } := by
    simp [settle, admitted, runFor, workerStep?, execute?, take?, hstalled, hworker, hchannel, h]
  have hrequest : s.request c =
      ((s.admitted c).settle.replyTo s.nextId, (s.admitted c).settle) := by
    simp [Store.request, offer, hclosed, admit?, enqueue?, hchannel, channelDepth, admitted]
  rw [hrequest, hsettled]
  exact ⟨by simp [replyTo], ⟨hclosed, hstalled, hworker, hchannel⟩, rfl⟩

/-! ## What others do -/

/-- What others may do with a store. -/
inductive Interlude
  | call (call : Call)
  | shutdown
  /-- The backend stops before its next command. -/
  | stall
  /-- The backend goes on. -/
  | resume

def undergo (s : Store σ) : Interlude → Store σ
  | .call call => (s.perform call).2
  | .shutdown => s.shutdown
  | .stall => s.stall
  | .resume => s.resume

/-- A shutdown executes nothing more than what was on its way. -/
theorem shutdown_cases {s : Store σ} (hs : s.Numbered) :
    s.shutdown.Numbered ∧ s.shutdown.flush = s.flush := by
  cases hclosed : s.isClosed with
  | true => simpa [shutdown, hclosed] using hs
  | false =>
      by_cases hroom : s.channel.length < channelDepth
      · let told : Store σ :=
          { s with isClosed := true, channel := s.channel ++ [.shutdown] }
        have hshutdown : s.shutdown = told.settle := by
          simp [shutdown, hclosed, enqueue?, hroom, told]
        have hpending : told.pending = s.pending := by
          simp [told, pending, Request.numbered?]
        have htold : told.Numbered := ⟨hpending ▸ hs.pending_lt, hs.replies_lt⟩
        rw [hshutdown]
        refine ⟨htold.settle, ?_⟩
        rw [flush_settle, flush, hpending]
        rfl
      · have hshutdown : s.shutdown = { s with isClosed := true } := by
          simp [shutdown, hclosed, enqueue?, hroom]
        rw [hshutdown]
        exact ⟨⟨hs.pending_lt, hs.replies_lt⟩, rfl⟩

theorem resume_cases {s : Store σ} (hs : s.Numbered) :
    s.resume.Numbered ∧ s.resume.flush = s.flush := by
  have hresumed : { s with isStalled := false }.Numbered := ⟨hs.pending_lt, hs.replies_lt⟩
  exact ⟨hresumed.settle, flush_settle _⟩

/-- Whatever others do, the backend will execute the command of their call, or nothing new. -/
theorem undergo_cases {s : Store σ} (hs : s.Numbered) (interlude : Interlude) :
    (s.undergo interlude).Numbered ∧
      ((s.undergo interlude).flush = s.flush ∨
        ∃ call c, interlude = .call call ∧ call.command? = some c ∧
          (s.undergo interlude).flush = (Backend.execute s.flush c).2) := by
  cases interlude with
  | call call =>
      cases hkey : call.command? with
      | none =>
          have hperform := World.perform_of_no_command hkey s
          simpa [undergo, hperform] using hs
      | some c =>
          have hperform := World.perform_of_command hkey s
          obtain ⟨e, -, hrequest⟩ | ⟨hnumbered, hflush, -⟩ := request_cases hs c
          · simpa [undergo, hperform, hrequest] using hs
          · rw [undergo, hperform]
            exact ⟨hnumbered, .inr ⟨call, c, rfl, hkey, hflush⟩⟩
  | shutdown =>
      obtain ⟨hnumbered, hflush⟩ := shutdown_cases hs
      exact ⟨hnumbered, .inl hflush⟩
  | stall => exact ⟨⟨hs.pending_lt, hs.replies_lt⟩, .inl rfl⟩
  | resume =>
      obtain ⟨hnumbered, hflush⟩ := resume_cases hs
      exact ⟨hnumbered, .inl hflush⟩

end Uplink.Kv.Store
