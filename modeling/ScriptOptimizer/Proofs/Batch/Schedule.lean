import Mathlib.Algebra.Ring.Nat
import ScriptOptimizer.Harmony.Statement
import ScriptOptimizer.Pattern.Check
import ScriptOptimizer.Proofs.Batch.Sound

/-!
Schedules of a batch. No party ever waits for room, some party other than the one that cancels can
always move until the batch is finished, and a schedule has no more moves than the jobs and workers
allow. A finished batch has the result of every job in the slot of that job, and without
cancellation these are the results of compiling the jobs one after the other.
-/

namespace ScriptOptimizer

/-- How many moves a worker can still make with what it has. -/
def Worker.remaining : Worker → Nat
  | .waiting => 1
  | .holding _ _ => 6
  | .compiling _ _ => 5
  | .counting _ => 4
  | .sending _ => 3
  | .left => 0

namespace Pool

variable {compile : Job → Except JobError Compiled} {jobs : List Job} {p q : Pool} {move : Move}
  {moves : List Move}

/-! ### Progress -/

/-- How many moves are left at most. A job takes seven: it is put into the queue, taken, looked at,
compiled, counted, sent and collected. -/
def remaining (p : Pool) : Nat :=
  7 * p.unsent.length + 6 * p.queue.length + (p.workers.map Worker.remaining).sum +
    p.channel.length + (!p.queueClosed).toNat + (!p.channelClosed).toNat + (!p.finished).toNat +
    (!p.cancelled).toNat

theorem remaining_start (jobs : List Job) (workers : Nat) :
    (start jobs workers).remaining = 7 * jobs.length + workers + 4 := by
  simp [remaining, start, Worker.remaining]

theorem remaining_setWorker {number : Nat} {v : Worker} (w : Worker)
    (hWorker : p.workers[number]? = some v) :
    v.remaining + (p.setWorker number w).remaining = w.remaining + p.remaining := by
  obtain ⟨hNumber, rfl⟩ := List.getElem?_eq_some_iff.mp hWorker
  have hSet := ((List.set_perm_cons_eraseIdx hNumber w).map Worker.remaining).sum_nat
  have hSelf := ((List.getElem_cons_eraseIdx_perm hNumber).map Worker.remaining).sum_nat
  simp only [List.map_cons, List.sum_cons] at hSet hSelf
  simp only [remaining, setWorker]
  omega

theorem Turn.remaining_lt (hTurn : Turn compile p move q) : q.remaining < p.remaining := by
  cases hTurn with
  | submit hUnsent =>
    simp only [remaining, hUnsent, List.length_append, List.length_cons, List.length_nil]
    omega
  | closeQueue hUnsent hOpen =>
    simp only [remaining, hOpen, Bool.not_true, Bool.not_false, Bool.toNat_true, Bool.toNat_false]
    omega
  | @take number job index queue hWorker hQueue =>
    have hSet := remaining_setWorker (p := { p with queue }) (.holding job index) hWorker
    have hTaken : ({ p with queue } : Pool).remaining + 6 = p.remaining := by
      simp only [remaining, hQueue, List.length_cons]
      omega
    simp only [Worker.remaining] at hSet
    omega
  | leave hWorker =>
    have hSet := remaining_setWorker .left hWorker
    simp only [Worker.remaining] at hSet
    omega
  | @skip number job index hWorker =>
    have hSet := remaining_setWorker (.counting ⟨index, job.path, .error .cancelled⟩) hWorker
    simp only [Worker.remaining] at hSet
    omega
  | @begin number job index hWorker =>
    have hSet := remaining_setWorker (.compiling job index) hWorker
    simp only [Worker.remaining] at hSet
    omega
  | @compile number job index hWorker =>
    have hSet := remaining_setWorker (.counting ⟨index, job.path, compile job⟩) hWorker
    simp only [Worker.remaining] at hSet
    omega
  | @count number result hWorker =>
    have hSet := remaining_setWorker (p := p.count result) (.sending result)
      (by simpa using hWorker)
    have hCount : (p.count result).remaining = p.remaining := by
      unfold Pool.count
      split <;> rfl
    simp only [Worker.remaining] at hSet
    omega
  | @send number result hWorker =>
    have hSet := remaining_setWorker (p := { p with channel := p.channel ++ [result] }) .waiting
      hWorker
    have hSent : ({ p with channel := p.channel ++ [result] } : Pool).remaining =
        p.remaining + 1 := by
      simp only [remaining, List.length_append, List.length_singleton]
      omega
    simp only [Worker.remaining] at hSet
    omega
  | closeChannel hLeft hOpen =>
    simp only [remaining, hOpen, Bool.not_true, Bool.not_false, Bool.toNat_true, Bool.toNat_false]
    omega
  | collect hChannel =>
    simp only [remaining, hChannel, List.length_cons]
    omega
  | finish hClosed hChannel hEnd hOpen =>
    simp only [remaining, hOpen, Bool.not_true, Bool.not_false, Bool.toNat_true, Bool.toNat_false]
    omega
  | cancel hOpen =>
    simp only [remaining, hOpen, Bool.not_true, Bool.not_false, Bool.toNat_true, Bool.toNat_false]
    omega

/-- A job that is still to be put into the queue can be. -/
theorem Placed.submits (hPlaced : Placed jobs p) (hUnsent : p.unsent ≠ []) :
    (p.step compile .submit).isSome := by
  have hRoom := hPlaced.queue_room hUnsent
  obtain ⟨entry, unsent, hCons⟩ := List.exists_cons_of_ne_nil hUnsent
  simp [step, hCons, hRoom]

/-- A result that a worker is about to send can be. -/
theorem Placed.worker_sends {number : Nat} {r : BatchResult} (hPlaced : Placed jobs p)
    (hWorker : p.workers[number]? = some (.sending r)) :
    (p.step compile (.work number)).isSome := by
  have hRoom := hPlaced.channel_room (List.mem_of_getElem? hWorker)
  simp [step, work, hWorker, hRoom]

/-- A worker that has not left can move once all jobs were put into the queue. -/
theorem Placed.worker_moves {number : Nat} {w : Worker} (hPlaced : Placed jobs p)
    (hClosed : p.queueClosed = true) (hWorker : p.workers[number]? = some w) (hBusy : w ≠ .left) :
    (p.step compile (.work number)).isSome := by
  cases w with
  | waiting =>
    cases hQueue : p.queue with
    | nil => simp [step, work, hWorker, hQueue, hClosed]
    | cons entry queue => simp [step, work, hWorker, hQueue]
  | holding job index =>
    cases hCancelled : p.cancelled <;> simp [step, work, hWorker, hCancelled]
  | compiling => simp [step, work, hWorker]
  | counting => simp [step, work, hWorker]
  | sending => exact hPlaced.worker_sends hWorker
  | left => exact absurd rfl hBusy

/-- The first party goes on until the queue is closed, then the workers do until all have left, and
then the channel is closed and emptied. -/
theorem Placed.progress (hPlaced : Placed jobs p) (hOpen : p.finished = false) :
    ∃ move, move ≠ .cancel ∧ (p.step compile move).isSome := by
  by_cases hUnsent : p.unsent = []
  case neg => exact ⟨.submit, by simp, hPlaced.submits hUnsent⟩
  cases hClosed : p.queueClosed
  case false => exact ⟨.closeQueue, by simp, by simp [step, hUnsent, hClosed]⟩
  by_cases hLeft : ∀ w ∈ p.workers, w = .left
  case neg =>
    simp only [not_forall] at hLeft
    obtain ⟨w, hMem, hBusy⟩ := hLeft
    obtain ⟨number, hWorker⟩ := List.mem_iff_getElem?.mp hMem
    exact ⟨.work number, by simp, hPlaced.worker_moves hClosed hWorker hBusy⟩
  cases hEnd : p.channelClosed
  case false =>
    have hAll : p.workers.all hasLeft = true := by simpa [hasLeft_iff] using hLeft
    exact ⟨.closeChannel, by simp, by simp only [step, hAll, hEnd]; rfl⟩
  cases hChannel : p.channel with
  | nil => exact ⟨.finish, by simp, by simp [step, hClosed, hChannel, hEnd, hOpen]⟩
  | cons => exact ⟨.collect, by simp, by simp [step, hClosed, hChannel]⟩

/-! ### Whole schedules -/

theorem play_cons (hPlay : p.play compile (move :: moves) = some q) :
    ∃ r, p.step compile move = some r ∧ r.play compile moves = some q := by
  simpa only [play, Option.bind_eq_some_iff] using hPlay

theorem Sound.play (hSound : Sound compile jobs p) (hPlay : p.play compile moves = some q) :
    Sound compile jobs q := by
  induction moves generalizing p with
  | nil => cases hPlay; exact hSound
  | cons move moves ih =>
    obtain ⟨r, hStep, hRest⟩ := play_cons hPlay
    exact ih (hSound.turn (turn_of_step hStep)) hRest

theorem length_play (hPlay : p.play compile moves = some q) :
    moves.length + q.remaining ≤ p.remaining := by
  induction moves generalizing p with
  | nil => cases hPlay; simp
  | cons move moves ih =>
    obtain ⟨r, hStep, hRest⟩ := play_cons hPlay
    have hLt := (turn_of_step hStep).remaining_lt
    have hLe := ih hRest
    simp only [List.length_cons]
    omega

theorem Turn.cancelled (hTurn : Turn compile p move q) :
    q.cancelled = (decide (move = .cancel) || p.cancelled) := by
  cases hTurn with
  | @count number result => unfold Pool.count; split <;> rfl
  | _ => rfl

theorem cancelled_play (hPlay : p.play compile moves = some q) :
    q.cancelled = (decide (.cancel ∈ moves) || p.cancelled) := by
  induction moves generalizing p with
  | nil => cases hPlay; simp
  | cons move moves ih =>
    obtain ⟨r, hStep, hRest⟩ := play_cons hPlay
    rw [ih hRest, (turn_of_step hStep).cancelled, ← Bool.or_assoc]
    congr 1
    simp only [List.mem_cons, Bool.decide_or, Bool.or_comm, eq_comm]

/-- The results that the workers send in the course of a schedule. -/
def sent (compile : Job → Except JobError Compiled) (p : Pool) : List Move → List BatchResult
  | [] => []
  | move :: moves =>
    match p.step compile move with
    | some q => p.sends move ++ q.sent compile moves
    | none => []

/-- The results that were sent so far. -/
def delivered (p : Pool) : List BatchResult := p.channel ++ p.slots.filterMap id

theorem Turn.delivered (hPlaced : Placed jobs p) (hTurn : Turn compile p move q) :
    q.delivered.Perm (p.sends move ++ p.delivered) := by
  have hSame {number : Nat} {w : Worker} (hWorker : p.workers[number]? = some w)
      (hCounted : w.counted? = none) (hDelivered : q.delivered = p.delivered) :
      q.delivered.Perm (p.sends (.work number) ++ p.delivered) := by
    simp [sends, hWorker, hCounted, hDelivered]
  cases hTurn with
  | submit => exact .refl _
  | closeQueue => exact .refl _
  | take hWorker => exact hSame hWorker rfl rfl
  | leave hWorker => exact hSame hWorker rfl rfl
  | skip hWorker => exact hSame hWorker rfl rfl
  | begin hWorker => exact hSame hWorker rfl rfl
  | compile hWorker => exact hSame hWorker rfl rfl
  | @count number result hWorker =>
    refine hSame hWorker rfl ?_
    unfold Pool.count
    split <;> rfl
  | @send number result hWorker =>
    simp only [Pool.delivered, setWorker, sends, hWorker, Option.bind_some, Worker.counted?,
      Option.toList_some, List.append_assoc]
    exact List.perm_middle
  | closeChannel => exact .refl _
  | @collect result channel hChannel =>
    have hSlot := hPlaced.slot_of_channel (r := result) (by simp [hChannel])
    have hSet : List.Perm ((p.slots.set result.index (some result)).filterMap id)
        (result :: p.slots.filterMap id) := filterMap_set_perm id (some result) hSlot
    simp only [Pool.delivered, hChannel]
    exact (hSet.append_left channel).trans List.perm_middle
  | finish => exact .refl _
  | cancel => exact .refl _

theorem sent_play (hSound : Sound compile jobs p) (hPlay : p.play compile moves = some q) :
    q.delivered.Perm (p.sent compile moves ++ p.delivered) := by
  induction moves generalizing p with
  | nil => cases hPlay; exact .refl _
  | cons move moves ih =>
    obtain ⟨r, hStep, hRest⟩ := play_cons hPlay
    have hTurn := turn_of_step hStep
    simp only [sent, hStep]
    calc q.delivered
      _ |>.Perm (r.sent compile moves ++ r.delivered) := ih (hSound.turn hTurn) hRest
      _ |>.Perm (r.sent compile moves ++ (p.sends move ++ p.delivered)) :=
          (hTurn.delivered hSound.placed).append_left _
      _ |>.Perm (p.sends move ++ r.sent compile moves ++ p.delivered) := by
          simpa only [List.append_assoc] using List.perm_append_comm.append_right p.delivered

/-! ### Finished batches -/

theorem workers_length_play (hPlay : p.play compile moves = some q) :
    q.workers.length = p.workers.length := by
  induction moves generalizing p with
  | nil => cases hPlay; rfl
  | cons move moves ih =>
    obtain ⟨r, hStep, hRest⟩ := play_cons hPlay
    rw [ih hRest]
    cases turn_of_step hStep <;> simp [setWorker]

/-- When a batch with a worker is finished, nothing is pending. -/
theorem Ordered.pending_of_finished (hOrdered : Ordered p) (hWorkers : 0 < p.workers.length)
    (hFinished : p.finished = true) : p.pending = [] := by
  obtain ⟨hEnd, hChannel⟩ := hOrdered.finished hFinished
  have hLeft := hOrdered.channelClosed hEnd
  obtain ⟨w, hMem⟩ := List.exists_mem_of_length_pos hWorkers
  obtain ⟨hClosed, hQueue⟩ := hOrdered.left (hLeft w hMem ▸ hMem)
  have hBusy : p.workers.filterMap Worker.index? = [] :=
    List.filterMap_eq_nil_iff.mpr fun w hw => by rw [hLeft w hw]; rfl
  simp [pending, hOrdered.queueClosed hClosed, hQueue, hBusy, hChannel]

/-- What a finished batch leaves behind: a result in every slot, the results that were sent, each
with its index, and the counters. -/
structure Delivered (compile : Job → Except JobError Compiled) (jobs : List Job) (cancelled : Bool)
    (sent results : List BatchResult) (p : Pool) : Prop where
  slots : p.slots = results.map some
  sent : sent.Perm results
  indices : results.map BatchResult.index = List.range jobs.length
  genuine (r : BatchResult) (hResult : r ∈ results) : r.Genuine compile jobs cancelled
  completed : p.completed = results.countP Batch.succeeded
  failed : p.failed = results.countP fun r => !Batch.succeeded r

theorem Sound.delivered (hSound : Sound compile jobs p) (hWorkers : 0 < p.workers.length)
    (hFinished : p.finished = true) {sent : List BatchResult} (hSent : p.delivered.Perm sent) :
    ∃ results, Delivered compile jobs p.cancelled sent results p := by
  have hPending := hSound.ordered.pending_of_finished hWorkers hFinished
  obtain ⟨hEnd, hChannel⟩ := hSound.ordered.finished hFinished
  have hLeft := hSound.ordered.channelClosed hEnd
  have hFilled : ∀ slot ∈ p.slots, slot.isSome := fun slot hSlot => by
    obtain ⟨i, hIndex⟩ := List.mem_iff_getElem?.mp hSlot
    refine Option.isSome_iff_ne_none.mpr fun hNone => ?_
    have hMem := (hSound.placed.empty i).mpr (hNone ▸ hIndex)
    simp [hPending] at hMem
  have hSlots : p.slots = (p.slots.filterMap id).map some := by
    generalize p.slots = slots at hFilled
    induction slots with
    | nil => rfl
    | cons slot slots ih =>
      simp only [List.forall_mem_cons] at hFilled
      obtain ⟨r, rfl⟩ := Option.isSome_iff_exists.mp hFilled.1
      exact congrArg (some r :: ·) (ih hFilled.2)
  have hGet (i : Nat) (r : BatchResult) (hResult : (p.slots.filterMap id)[i]? = some r) :
      r.index = i ∧ r.Genuine compile jobs p.cancelled := by
    refine hSound.genuine.slots i r ?_
    rw [hSlots, List.getElem?_map, hResult]
    rfl
  have hLength : (p.slots.filterMap id).length = jobs.length := by
    rw [← hSound.placed.length]
    conv_rhs => rw [hSlots, List.length_map]
  have hCounted : p.counted = p.slots.filterMap id := by
    have hNone : p.workers.filterMap Worker.counted? = [] :=
      List.filterMap_eq_nil_iff.mpr fun w hw => by rw [hLeft w hw]; rfl
    rw [Pool.counted, hNone, hChannel, List.nil_append, List.nil_append]
  refine ⟨p.slots.filterMap id, hSlots, ?_, ?_, fun r hr => ?_, ?_, ?_⟩
  · simpa [Pool.delivered, hChannel] using hSent.symm
  · refine List.ext_getElem (by rw [List.length_map, List.length_range, hLength])
      fun i hLeft hRight => ?_
    simp only [List.getElem_map, List.getElem_range]
    exact (hGet i _ (List.getElem?_eq_getElem _)).1
  · obtain ⟨i, hIndex⟩ := List.mem_iff_getElem?.mp hr
    exact (hGet i r hIndex).2
  · rw [← hCounted]
    exact hSound.counted.completed
  · rw [← hCounted]
    exact hSound.counted.failed

/-- Without cancellation the results are those of the jobs one after the other. -/
theorem Delivered.results_eq [PatternCheck] [ScriptReader] {o : Options} {files : FileTree}
    {sent results : List BatchResult}
    (hDelivered : Delivered (Job.run o files) jobs false sent results p) (workers : Int) :
    results = (Batch.run o files workers false jobs).results := by
  have hLength : results.length = jobs.length := by
    simpa using congrArg List.length hDelivered.indices
  refine List.ext_getElem (by simp [Batch.run, hLength]) fun i hLeft hRight => ?_
  have hIndex : results[i].index = i := by
    have hGet := congrArg (fun l => l[i]?) hDelivered.indices
    simpa [List.getElem?_range (hLength ▸ hLeft), List.getElem?_eq_getElem hLeft] using hGet
  obtain ⟨job, hJob, hPath, hOutcome⟩ := hDelivered.genuine _ (List.getElem_mem hLeft)
  rw [hIndex, List.getElem?_eq_getElem (hLength ▸ hLeft), Option.some.injEq] at hJob
  have hOwn : results[i].outcome = job.run o files :=
    hOutcome.resolve_right fun hCancelled => Bool.false_ne_true hCancelled.1
  simp only [Batch.run, List.getElem_map, List.getElem_zipIdx, Nat.zero_add, hJob]
  generalize results[i] = r at hIndex hPath hOwn
  obtain ⟨index, path, outcome⟩ := r
  cases hIndex
  cases hPath
  cases hOwn
  rfl

/-- A batch does not depend on its schedule. -/
theorem play_delivers [PatternCheck] [ScriptReader] {o : Options} {files : FileTree}
    {jobs : List Job} {workers : Nat} {moves : List Move} {p : Pool} (hWorkers : 0 < workers)
    (hPlay : (start jobs workers).play (Job.run o files) moves = some p) :
    (p.unsent ≠ [] → (p.step (Job.run o files) .submit).isSome) ∧
      (∀ number r, p.workers[number]? = some (.sending r) →
        (p.step (Job.run o files) (.work number)).isSome) ∧
      (∀ r ∈ p.channel, p.slots[r.index]? = some none) ∧
      (p.finished = false → ∃ move, move ≠ .cancel ∧ (p.step (Job.run o files) move).isSome) ∧
      moves.length ≤ 7 * jobs.length + workers + 4 ∧
      (p.finished = true → ∃ results,
        Delivered (Job.run o files) jobs (decide (.cancel ∈ moves))
          ((start jobs workers).sent (Job.run o files) moves) results p ∧
        p.completed + p.failed = jobs.length ∧
        (.cancel ∉ moves → results = (Batch.run o files workers false jobs).results)) := by
  have hStart : Sound (Job.run o files) jobs (start jobs workers) := sound_start jobs workers
  have hSound := hStart.play hPlay
  have hCancelled : p.cancelled = decide (.cancel ∈ moves) := by
    simpa [start] using cancelled_play hPlay
  have hLength := length_play hPlay
  rw [remaining_start] at hLength
  refine ⟨hSound.placed.submits, fun _ _ => hSound.placed.worker_sends,
    fun _ => hSound.placed.slot_of_channel, hSound.placed.progress, by omega, fun hFinished => ?_⟩
  have hCount : 0 < p.workers.length := by
    rw [workers_length_play hPlay]
    simpa [start] using hWorkers
  have hNothing : (start jobs workers).delivered = [] := by
    simp [delivered, start]
  have hSent := sent_play hStart hPlay
  rw [hNothing, List.append_nil] at hSent
  obtain ⟨results, hDelivered⟩ := hSound.delivered hCount hFinished hSent
  rw [hCancelled] at hDelivered
  refine ⟨results, hDelivered, ?_, fun hNever => ?_⟩
  · have hResults := congrArg List.length hDelivered.indices
    rw [List.length_map, List.length_range] at hResults
    have hSplit := List.length_eq_countP_add_countP Batch.succeeded (l := results)
    rw [hDelivered.completed, hDelivered.failed, ← hResults, hSplit]
    simp
  · rw [decide_eq_false hNever] at hDelivered
    exact hDelivered.results_eq workers

/-- Two workers, of which one reads a file that is not there and the other is told that the batch
was cancelled. -/
theorem play_delivers_cancelled :
    ∃ moves p, (start [.ofPath [97], .ofPath [98]] 2).play (Job.run .default ⟨[], []⟩) moves =
        some p ∧ p.finished = true ∧ .cancel ∈ moves ∧ ∃ results,
      Delivered (Job.run .default ⟨[], []⟩) [.ofPath [97], .ofPath [98]] true
        ((start [.ofPath [97], .ofPath [98]] 2).sent (Job.run .default ⟨[], []⟩) moves) results p ∧
      p.completed + p.failed = 2 := by
  let moves : List Move := [.submit, .submit, .work 1, .work 1, .cancel, .work 0, .work 0, .work 0,
    .closeQueue, .work 1, .work 0, .work 1, .work 1, .collect, .work 0, .work 1, .closeChannel,
    .collect, .finish]
  have hEnd : ((start [.ofPath [97], .ofPath [98]] 2).play (Job.run .default ⟨[], []⟩) moves).map
      Pool.finished = some true := by decide
  obtain ⟨p, hPlay, hFinished⟩ := Option.map_eq_some_iff.mp hEnd
  obtain ⟨-, -, -, -, -, hDone⟩ := play_delivers (by decide) hPlay
  obtain ⟨results, hDelivered, hTotal, -⟩ := hDone hFinished
  exact ⟨moves, p, hPlay, hFinished, by decide, results, hDelivered, hTotal⟩

end Pool

end ScriptOptimizer
