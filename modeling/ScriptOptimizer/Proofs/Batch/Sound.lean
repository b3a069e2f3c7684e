import ScriptOptimizer.Proofs.Batch.Turn

/-!
What holds of a batch in progress after every move: each input is in one place only, every job and
result belongs to the input whose index it bears, the counters say what was counted, and queue,
workers and channel are given up in this order.
-/

namespace ScriptOptimizer

/-- A result that the job of its index can have: what compiling the job gives or, in a batch that
was cancelled, that it was. -/
def BatchResult.Genuine (compile : Job → Except JobError Compiled) (jobs : List Job)
    (cancelled : Bool) (r : BatchResult) : Prop :=
  ∃ job, jobs[r.index]? = some job ∧ r.path = job.path ∧
    (r.outcome = compile job ∨ cancelled = true ∧ r.outcome = .error .cancelled)

theorem BatchResult.Genuine.mono {compile : Job → Except JobError Compiled} {jobs : List Job}
    {c d : Bool} {r : BatchResult} (hGenuine : r.Genuine compile jobs c)
    (hMono : c = true → d = true) : r.Genuine compile jobs d := by
  obtain ⟨job, hJob, hPath, hOutcome⟩ := hGenuine
  exact ⟨job, hJob, hPath, hOutcome.imp_right (And.imp_left hMono)⟩

/-- What a worker has belongs together. -/
def Worker.Genuine (compile : Job → Except JobError Compiled) (jobs : List Job) (cancelled : Bool) :
    Worker → Prop
  | .holding job index => jobs[index]? = some job
  | .compiling job index => jobs[index]? = some job
  | .counting result => result.Genuine compile jobs cancelled
  | .sending result => result.Genuine compile jobs cancelled
  | _ => True

theorem Worker.Genuine.mono {compile : Job → Except JobError Compiled} {jobs : List Job}
    {c d : Bool} {w : Worker} (hGenuine : w.Genuine compile jobs c) (hMono : c = true → d = true) :
    w.Genuine compile jobs d := by
  cases w with
  | waiting => trivial
  | holding => exact hGenuine
  | compiling => exact hGenuine
  | counting => exact BatchResult.Genuine.mono hGenuine hMono
  | sending => exact BatchResult.Genuine.mono hGenuine hMono
  | left => trivial

namespace Pool

variable {compile : Job → Except JobError Compiled} {jobs : List Job} {p q : Pool} {move : Move}

/-- The pending inputs are those whose slots are empty, and none of them is in two places. -/
structure Placed (jobs : List Job) (p : Pool) : Prop where
  capacity : p.capacity = jobs.length
  length : p.slots.length = jobs.length
  nodup : p.pending.Nodup
  empty (i : Nat) : i ∈ p.pending ↔ p.slots[i]? = some none

/-- Jobs and results bear their own indices. -/
structure Genuine (compile : Job → Except JobError Compiled) (jobs : List Job) (p : Pool) :
    Prop where
  entries (job : Job) (index : Nat) (hEntry : (job, index) ∈ p.unsent ++ p.queue) :
    jobs[index]? = some job
  workers (w : Worker) (hWorker : w ∈ p.workers) : w.Genuine compile jobs p.cancelled
  channel (r : BatchResult) (hSent : r ∈ p.channel) : r.Genuine compile jobs p.cancelled
  slots (i : Nat) (r : BatchResult) (hSlot : p.slots[i]? = some (some r)) :
    r.index = i ∧ r.Genuine compile jobs p.cancelled

/-- The counters agree with the results. -/
structure Counted (p : Pool) : Prop where
  completed : p.completed = p.counted.countP Batch.succeeded
  failed : p.failed = p.counted.countP fun r => !Batch.succeeded r

/-- What is closed or left has nothing in it, and neither has what comes before it. -/
structure Ordered (p : Pool) : Prop where
  queueClosed (hClosed : p.queueClosed = true) : p.unsent = []
  left (hLeft : .left ∈ p.workers) : p.queueClosed = true ∧ p.queue = []
  channelClosed (hClosed : p.channelClosed = true) : ∀ w ∈ p.workers, w = .left
  finished (hFinished : p.finished = true) : p.channelClosed = true ∧ p.channel = []

/-- A batch in progress as it can come to be. -/
structure Sound (compile : Job → Except JobError Compiled) (jobs : List Job) (p : Pool) :
    Prop where
  placed : Placed jobs p
  genuine : Genuine compile jobs p
  counted : Counted p
  ordered : Ordered p

/-! ### The start -/

theorem sound_start (jobs : List Job) (workers : Nat) :
    Sound compile jobs (start jobs workers) := by
  have hWorkers {α : Type} (f : Worker → Option α) (hWaiting : f .waiting = none) :
      (List.replicate workers Worker.waiting).filterMap f = [] :=
    List.filterMap_eq_nil_iff.mpr fun w hw => by rw [List.eq_of_mem_replicate hw, hWaiting]
  have hPending : (start jobs workers).pending = List.range jobs.length := by
    simp [pending, start, hWorkers Worker.index? rfl, List.range_eq_range']
  have hCounted : (start jobs workers).counted = [] := by
    simp [counted, start, hWorkers Worker.counted? rfl]
  refine ⟨⟨rfl, by simp [start], ?_, fun i => ?_⟩, ⟨?_, ?_, ?_, ?_⟩, ⟨?_, ?_⟩, ⟨?_, ?_, ?_, ?_⟩⟩
  · rw [hPending]
    exact List.nodup_range
  · rw [hPending]
    simp [start, List.getElem?_replicate]
  · intro job index hEntry
    simpa [start, List.mk_mem_zipIdx_iff_getElem?] using hEntry
  · intro w hw
    rw [List.eq_of_mem_replicate hw]
    exact trivial
  · simp [start]
  · simp [start, List.getElem?_replicate]
  · rw [hCounted]
    rfl
  · rw [hCounted]
    rfl
  · simp [start]
  · intro hLeft
    cases List.eq_of_mem_replicate hLeft
  · simp [start]
  · simp [start]

/-! ### Places -/

/-- A worker goes on: the inputs that are pending change by what it has. -/
theorem pending_setWorker {number : Nat} {v : Worker} (w : Worker)
    (hWorker : p.workers[number]? = some v) :
    List.Perm (v.index?.toList ++ (p.setWorker number w).pending)
      (w.index?.toList ++ p.pending) := by
  have hSet := filterMap_set_perm Worker.index? w hWorker
  have hMove (o : Option Nat) (a b c : List Nat) :
      List.Perm (o.toList ++ (a ++ (b ++ c))) (a ++ ((o.toList ++ b) ++ c)) := by
    simpa only [List.append_assoc] using List.perm_append_comm_assoc o.toList a (b ++ c)
  exact (hMove _ _ _ _).trans (((hSet.append_right _).append_left _).trans (hMove _ _ _ _).symm)

theorem Placed.of_perm (hPlaced : Placed jobs p) (hCapacity : q.capacity = p.capacity)
    (hSlots : q.slots = p.slots) (hPending : q.pending.Perm p.pending) : Placed jobs q where
  capacity := hCapacity.trans hPlaced.capacity
  length := hSlots ▸ hPlaced.length
  nodup := hPending.nodup_iff.mpr hPlaced.nodup
  empty i := by rw [hPending.mem_iff, hPlaced.empty, hSlots]

/-- A worker that goes on with the same input leaves all inputs where they are. -/
theorem Placed.setWorker {number : Nat} {v : Worker} (w : Worker) (hPlaced : Placed jobs p)
    (hWorker : p.workers[number]? = some v) (hIndex : v.index? = w.index?) :
    Placed jobs (p.setWorker number w) := by
  refine hPlaced.of_perm rfl rfl ?_
  have hPerm := pending_setWorker w hWorker
  rw [hIndex] at hPerm
  exact (List.perm_append_left_iff _).mp hPerm

/-- The result that is collected next has an empty slot to go to. -/
theorem Placed.slot_of_channel {r : BatchResult} (hPlaced : Placed jobs p) (hSent : r ∈ p.channel) :
    p.slots[r.index]? = some none := by
  refine (hPlaced.empty r.index).mp ?_
  simp only [pending, List.mem_append, List.mem_map]
  exact .inr (.inr ⟨r, hSent, rfl⟩)

theorem Placed.turn (hPlaced : Placed jobs p) (hTurn : Turn compile p move q) : Placed jobs q := by
  cases hTurn with
  | @submit entry unsent hUnsent hRoom =>
    refine hPlaced.of_perm rfl rfl ?_
    simp only [pending, hUnsent]
    refine List.Perm.append_right _ (List.Perm.map _ ?_)
    rw [List.cons_append, ← List.append_assoc]
    exact List.perm_append_singleton entry (unsent ++ p.queue)
  | closeQueue => exact hPlaced.of_perm rfl rfl (.refl _)
  | @take number job index queue hWorker hQueue =>
    refine hPlaced.of_perm rfl rfl ?_
    have hSet := pending_setWorker (p := { p with queue }) (.holding job index) hWorker
    refine List.Perm.trans (by simpa [Worker.index?] using hSet) ?_
    simp only [pending, hQueue, List.map_append, List.map_cons, List.append_assoc,
      List.cons_append]
    exact List.perm_middle.symm
  | leave hWorker => exact hPlaced.setWorker _ hWorker rfl
  | skip hWorker => exact hPlaced.setWorker _ hWorker rfl
  | begin hWorker => exact hPlaced.setWorker _ hWorker rfl
  | compile hWorker => exact hPlaced.setWorker _ hWorker rfl
  | @count number result hWorker =>
    have hCount : Placed jobs (p.count result) := by
      unfold count
      split <;> exact hPlaced.of_perm rfl rfl (.refl _)
    exact hCount.setWorker (v := .counting result) _ (by simpa using hWorker) rfl
  | @send number result hWorker hRoom =>
    refine hPlaced.of_perm rfl rfl ?_
    have hSet :=
      pending_setWorker (p := { p with channel := p.channel ++ [result] }) .waiting hWorker
    have hSent : List.Perm ({ p with channel := p.channel ++ [result] } : Pool).pending
        (result.index :: p.pending) := by
      simp only [pending, List.map_append, List.map_cons, List.map_nil, ← List.append_assoc]
      exact List.perm_append_singleton _ _
    exact (List.perm_cons _).mp (List.Perm.trans (by simpa [Worker.index?] using hSet) hSent)
  | closeChannel => exact hPlaced.of_perm rfl rfl (.refl _)
  | @collect result channel hChannel hClosed =>
    have hSlot := hPlaced.slot_of_channel (r := result) (by simp [hChannel])
    have hPerm : List.Perm p.pending (result.index ::
        ({ p with channel, slots := p.slots.set result.index (some result) } : Pool).pending) := by
      simp only [pending, hChannel, List.map_cons]
      simpa only [List.append_assoc] using @List.perm_middle _ result.index
        ((p.unsent ++ p.queue).map Prod.snd ++ p.workers.filterMap Worker.index?) _
    have hNodup := List.nodup_cons.mp (hPerm.nodup_iff.mp hPlaced.nodup)
    refine ⟨hPlaced.capacity, by simpa using hPlaced.length, hNodup.2, fun i => ?_⟩
    by_cases hIndex : result.index = i
    · subst hIndex
      have hFilled : (p.slots.set result.index (some result))[result.index]? ≠ some none := by
        simp [(List.getElem?_eq_some_iff.mp hSlot).1]
      exact iff_of_false hNodup.1 hFilled
    · rw [List.getElem?_set_ne hIndex, ← hPlaced.empty, hPerm.mem_iff, List.mem_cons,
        or_iff_right (Ne.symm hIndex)]
  | finish => exact hPlaced.of_perm rfl rfl (.refl _)
  | cancel => exact hPlaced.of_perm rfl rfl (.refl _)

theorem Placed.pending_length_le (hPlaced : Placed jobs p) : p.pending.length ≤ jobs.length := by
  have hSub : p.pending ⊆ List.range jobs.length := fun i hi => by
    have hSlot := (hPlaced.empty i).mp hi
    rw [List.mem_range, ← hPlaced.length]
    exact (List.getElem?_eq_some_iff.mp hSlot).1
  simpa using (List.subperm_of_subset hPlaced.nodup hSub).length_le

/-- The queue has room for a job that is still to be put into it. -/
theorem Placed.queue_room (hPlaced : Placed jobs p) (hUnsent : p.unsent ≠ []) :
    p.queue.length < p.capacity := by
  have hLength := hPlaced.pending_length_le
  have hPos := List.length_pos_iff.mpr hUnsent
  simp only [pending, List.length_append, List.length_map] at hLength
  rw [hPlaced.capacity]
  omega

/-- The channel has room for a result that a worker is about to send. -/
theorem Placed.channel_room {r : BatchResult} (hPlaced : Placed jobs p)
    (hWorker : .sending r ∈ p.workers) : p.channel.length < p.capacity := by
  have hLength := hPlaced.pending_length_le
  have hBusy : r.index ∈ p.workers.filterMap Worker.index? :=
    List.mem_filterMap.mpr ⟨_, hWorker, rfl⟩
  have hPos := List.length_pos_of_mem hBusy
  simp only [pending, List.length_append, List.length_map] at hLength
  rw [hPlaced.capacity]
  omega

/-! ### Jobs and results -/

theorem Genuine.of_worker {number : Nat} {w : Worker} (hGenuine : Genuine compile jobs p)
    (hWorker : w.Genuine compile jobs p.cancelled) :
    Genuine compile jobs (p.setWorker number w) where
  entries := hGenuine.entries
  workers v hv := by
    rcases List.mem_or_eq_of_mem_set hv with hOld | rfl
    · exact hGenuine.workers v hOld
    · exact hWorker
  channel := hGenuine.channel
  slots := hGenuine.slots

theorem Genuine.worker {number : Nat} {w : Worker} (hGenuine : Genuine compile jobs p)
    (hWorker : p.workers[number]? = some w) : w.Genuine compile jobs p.cancelled :=
  hGenuine.workers w (List.mem_of_getElem? hWorker)

theorem Genuine.turn (hGenuine : Genuine compile jobs p) (hTurn : Turn compile p move q) :
    Genuine compile jobs q := by
  cases hTurn with
  | @submit entry unsent hUnsent hRoom =>
    refine ⟨fun job index hEntry => hGenuine.entries job index ?_, hGenuine.workers,
      hGenuine.channel, hGenuine.slots⟩
    simp only [hUnsent, List.mem_append, List.mem_cons, List.not_mem_nil, or_false] at hEntry ⊢
    tauto
  | closeQueue hUnsent hOpen =>
    exact ⟨hGenuine.entries, hGenuine.workers, hGenuine.channel, hGenuine.slots⟩
  | @take number job index queue hWorker hQueue =>
    refine Genuine.of_worker ⟨fun job index hEntry => hGenuine.entries job index ?_,
      hGenuine.workers, hGenuine.channel, hGenuine.slots⟩ ?_
    · simp only [hQueue, List.mem_append, List.mem_cons] at hEntry ⊢
      tauto
    · exact hGenuine.entries job index (by simp [hQueue])
  | leave hWorker => exact hGenuine.of_worker trivial
  | skip hWorker hCancelled =>
    exact hGenuine.of_worker ⟨_, hGenuine.worker hWorker, rfl, .inr ⟨hCancelled, rfl⟩⟩
  | @begin number job index hWorker =>
    have hJob : jobs[index]? = some job := hGenuine.worker hWorker
    exact hGenuine.of_worker hJob
  | compile hWorker => exact hGenuine.of_worker ⟨_, hGenuine.worker hWorker, rfl, .inl rfl⟩
  | @count number result hWorker =>
    have hResult : result.Genuine compile jobs p.cancelled := hGenuine.worker hWorker
    unfold count
    split <;> exact Genuine.of_worker ⟨hGenuine.entries, hGenuine.workers, hGenuine.channel,
      hGenuine.slots⟩ hResult
  | @send number result hWorker hRoom =>
    refine Genuine.of_worker ⟨hGenuine.entries, hGenuine.workers, fun r hr => ?_,
      hGenuine.slots⟩ trivial
    rcases List.mem_append.mp hr with hOld | hNew
    · exact hGenuine.channel r hOld
    · cases List.mem_singleton.mp hNew
      exact hGenuine.worker hWorker
  | closeChannel =>
    exact ⟨hGenuine.entries, hGenuine.workers, hGenuine.channel, hGenuine.slots⟩
  | @collect result channel hChannel hClosed =>
    refine ⟨hGenuine.entries, hGenuine.workers,
      fun r hr => hGenuine.channel r (by simp [hChannel, hr]), fun i r hSlot => ?_⟩
    by_cases hIndex : result.index = i
    · simp only [List.getElem?_set, hIndex, if_true, Option.ite_none_right_eq_some,
        Option.some.injEq] at hSlot
      cases hSlot.2
      exact ⟨hIndex, hGenuine.channel result (by simp [hChannel])⟩
    · rw [List.getElem?_set_ne hIndex] at hSlot
      exact hGenuine.slots i r hSlot
  | finish =>
    exact ⟨hGenuine.entries, hGenuine.workers, hGenuine.channel, hGenuine.slots⟩
  | cancel =>
    have hMono : p.cancelled = true → true = true := fun _ => rfl
    refine ⟨hGenuine.entries, fun w hw => ?_, fun r hr => (hGenuine.channel r hr).mono hMono,
      fun i r hSlot => (hGenuine.slots i r hSlot).imp_right (·.mono hMono)⟩
    exact (hGenuine.workers w hw).mono hMono

/-! ### Counters -/

theorem Counted.of_perm (hCounted : Counted p) (hCompleted : q.completed = p.completed)
    (hFailed : q.failed = p.failed) (hPerm : q.counted.Perm p.counted) : Counted q where
  completed := by rw [hCompleted, hCounted.completed, hPerm.countP_eq]
  failed := by rw [hFailed, hCounted.failed, hPerm.countP_eq]

theorem counted_setWorker {number : Nat} {v : Worker} (w : Worker)
    (hWorker : p.workers[number]? = some v) :
    List.Perm (v.counted?.toList ++ (p.setWorker number w).counted)
      (w.counted?.toList ++ p.counted) := by
  have hSet := filterMap_set_perm Worker.counted? w hWorker
  simpa only [counted, setWorker, List.append_assoc] using
    hSet.append_right (p.channel ++ p.slots.filterMap id)

/-- A worker that goes on without a counted result leaves the counters right. -/
theorem Counted.setWorker {number : Nat} {v : Worker} (w : Worker) (hCounted : Counted p)
    (hWorker : p.workers[number]? = some v) (hOld : v.counted? = none) (hNew : w.counted? = none) :
    Counted (p.setWorker number w) := by
  have hPerm := counted_setWorker w hWorker
  rw [hOld, hNew] at hPerm
  exact hCounted.of_perm rfl rfl hPerm

theorem Counted.turn (hPlaced : Placed jobs p) (hCounted : Counted p)
    (hTurn : Turn compile p move q) : Counted q := by
  cases hTurn with
  | submit => exact hCounted.of_perm rfl rfl (.refl _)
  | closeQueue => exact hCounted.of_perm rfl rfl (.refl _)
  | @take number job index queue hWorker hQueue =>
    have hQueued : Counted { p with queue } := hCounted.of_perm rfl rfl (.refl _)
    exact hQueued.setWorker _ hWorker rfl rfl
  | leave hWorker => exact hCounted.setWorker _ hWorker rfl rfl
  | skip hWorker => exact hCounted.setWorker _ hWorker rfl rfl
  | begin hWorker => exact hCounted.setWorker _ hWorker rfl rfl
  | compile hWorker => exact hCounted.setWorker _ hWorker rfl rfl
  | @count number result hWorker =>
    have hPerm : List.Perm (p.setWorker number (.sending result)).counted (result :: p.counted) :=
      counted_setWorker (.sending result) hWorker
    unfold count
    split
    · next hSucceeded =>
      refine ⟨?_, ?_⟩
      · exact (congrArg (· + 1) hCounted.completed).trans
          ((hPerm.countP_eq _).trans (List.countP_cons_of_pos hSucceeded)).symm
      · exact hCounted.failed.trans
          ((hPerm.countP_eq _).trans (List.countP_cons_of_neg (by simp [hSucceeded]))).symm
    · next hFailed =>
      refine ⟨?_, ?_⟩
      · exact hCounted.completed.trans
          ((hPerm.countP_eq _).trans (List.countP_cons_of_neg hFailed)).symm
      · exact (congrArg (· + 1) hCounted.failed).trans
          ((hPerm.countP_eq _).trans (List.countP_cons_of_pos (by simp [hFailed]))).symm
  | @send number result hWorker hRoom =>
    refine hCounted.of_perm rfl rfl ?_
    have hSet :=
      counted_setWorker (p := { p with channel := p.channel ++ [result] }) .waiting hWorker
    have hSent : List.Perm ({ p with channel := p.channel ++ [result] } : Pool).counted
        (result :: p.counted) := by
      simp only [counted, List.append_assoc, List.singleton_append]
      exact (List.perm_middle.append_left _).trans List.perm_middle
    exact (List.perm_cons _).mp (List.Perm.trans hSet hSent)
  | closeChannel => exact hCounted.of_perm rfl rfl (.refl _)
  | @collect result channel hChannel hClosed =>
    refine hCounted.of_perm rfl rfl (List.Perm.append_left _ ?_)
    have hSlot := hPlaced.slot_of_channel (r := result) (by simp [hChannel])
    have hSet : List.Perm ((p.slots.set result.index (some result)).filterMap id)
        (result :: p.slots.filterMap id) := filterMap_set_perm id (some result) hSlot
    rw [hChannel]
    exact (hSet.append_left channel).trans List.perm_middle
  | finish => exact hCounted.of_perm rfl rfl (.refl _)
  | cancel => exact hCounted.of_perm rfl rfl (.refl _)

/-! ### Order -/

/-- A worker that is not yet to leave keeps the channel open. -/
theorem Ordered.channel_open {number : Nat} {w : Worker} (hOrdered : Ordered p)
    (hWorker : p.workers[number]? = some w) (hBusy : w ≠ .left) : p.channelClosed = false := by
  by_contra hClosed
  exact hBusy (hOrdered.channelClosed (by simpa using hClosed) w (List.mem_of_getElem? hWorker))

theorem Ordered.turn (hOrdered : Ordered p) (hTurn : Turn compile p move q) : Ordered q := by
  have hGoOn {p : Pool} {number : Nat} {v : Worker} (w : Worker) (hOrdered : Ordered p)
      (hWorker : p.workers[number]? = some v) (hOld : v ≠ .left) (hNew : w ≠ .left) :
      Ordered (p.setWorker number w) := by
    have hOpen := hOrdered.channel_open hWorker hOld
    refine ⟨hOrdered.queueClosed, fun hLeft => ?_, fun hClosed => ?_, hOrdered.finished⟩
    · rcases List.mem_or_eq_of_mem_set hLeft with hMem | hEq
      · exact hOrdered.left hMem
      · exact absurd hEq.symm hNew
    · exact absurd (hOpen.symm.trans hClosed) Bool.false_ne_true
  cases hTurn with
  | @submit entry unsent hUnsent hRoom =>
    have hOpen : p.queueClosed = false := by
      by_contra hClosed
      have hNil := hOrdered.queueClosed (by simpa using hClosed)
      simp [hUnsent] at hNil
    refine ⟨fun hClosed => ?_, fun hLeft => ?_, hOrdered.channelClosed, hOrdered.finished⟩
    · exact absurd (hOpen.symm.trans hClosed) Bool.false_ne_true
    · exact absurd (hOpen.symm.trans (hOrdered.left hLeft).1) Bool.false_ne_true
  | closeQueue hUnsent hOpen =>
    exact ⟨fun _ => hUnsent, fun hLeft => ⟨rfl, (hOrdered.left hLeft).2⟩, hOrdered.channelClosed,
      hOrdered.finished⟩
  | @take number job index queue hWorker hQueue =>
    refine hGoOn _ ⟨hOrdered.queueClosed, fun hLeft => ?_, hOrdered.channelClosed,
      hOrdered.finished⟩ hWorker (by simp) (by simp)
    have hNil := (hOrdered.left hLeft).2
    simp [hQueue] at hNil
  | leave hWorker hQueue hClosed =>
    have hOpen := hOrdered.channel_open hWorker (by simp)
    refine ⟨hOrdered.queueClosed, fun _ => ⟨hClosed, hQueue⟩, fun hEnd => ?_, hOrdered.finished⟩
    exact absurd (hOpen.symm.trans hEnd) Bool.false_ne_true
  | skip hWorker => exact hGoOn _ hOrdered hWorker (by simp) (by simp)
  | begin hWorker => exact hGoOn _ hOrdered hWorker (by simp) (by simp)
  | compile hWorker => exact hGoOn _ hOrdered hWorker (by simp) (by simp)
  | @count number result hWorker =>
    unfold count
    split <;> exact hGoOn _ ⟨hOrdered.queueClosed, hOrdered.left, hOrdered.channelClosed,
      hOrdered.finished⟩ hWorker (by simp) (by simp)
  | @send number result hWorker hRoom =>
    have hOpen := hOrdered.channel_open hWorker (by simp)
    refine hGoOn _ ⟨hOrdered.queueClosed, hOrdered.left, hOrdered.channelClosed,
      fun hFinished => ?_⟩ hWorker (by simp) (by simp)
    exact absurd (hOpen.symm.trans (hOrdered.finished hFinished).1) Bool.false_ne_true
  | closeChannel hLeft hOpen =>
    exact ⟨hOrdered.queueClosed, hOrdered.left, fun _ => hLeft,
      fun hFinished => ⟨rfl, (hOrdered.finished hFinished).2⟩⟩
  | collect hChannel hClosed =>
    refine ⟨hOrdered.queueClosed, hOrdered.left, hOrdered.channelClosed, fun hFinished => ?_⟩
    have hNil := (hOrdered.finished hFinished).2
    simp [hChannel] at hNil
  | finish hClosed hChannel hEnd hOpen =>
    exact ⟨hOrdered.queueClosed, hOrdered.left, hOrdered.channelClosed, fun _ => ⟨hEnd, hChannel⟩⟩
  | cancel =>
    exact ⟨hOrdered.queueClosed, hOrdered.left, hOrdered.channelClosed, hOrdered.finished⟩

theorem Sound.turn (hSound : Sound compile jobs p) (hTurn : Turn compile p move q) :
    Sound compile jobs q where
  placed := hSound.placed.turn hTurn
  genuine := hSound.genuine.turn hTurn
  counted := hSound.counted.turn hSound.placed hTurn
  ordered := hSound.ordered.turn hTurn

end Pool

end ScriptOptimizer
