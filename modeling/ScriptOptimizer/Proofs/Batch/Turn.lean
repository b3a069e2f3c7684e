import ScriptOptimizer.Batch.Pool
import Mathlib.Data.List.Perm.Basic
import Mathlib.Data.List.Perm.Subperm

/-!
What one move changes in a batch in progress. `Turn` lists the moves with their conditions; every
later fact about a move is a case analysis on it. The inputs that are still to be stored are
`pending`, the results that were counted are `counted`, and a move takes both up to order from one
place to the next.
-/

namespace ScriptOptimizer

/-- The input that a worker has. -/
def Worker.index? : Worker → Option Nat
  | .holding _ index => some index
  | .compiling _ index => some index
  | .counting result => some result.index
  | .sending result => some result.index
  | _ => none

/-- The result that a worker has counted and not sent. -/
def Worker.counted? : Worker → Option BatchResult
  | .sending result => some result
  | _ => none

namespace Pool

variable {compile : Job → Except JobError Compiled} {jobs : List Job} {p q : Pool}

@[simp] theorem count_workers (p : Pool) (r : BatchResult) :
    (p.count r).workers = p.workers := by
  unfold count
  split <;> rfl

/-- The result that a move sends. -/
def sends (p : Pool) : Move → List BatchResult
  | .work number => (p.workers[number]?.bind Worker.counted?).toList
  | _ => []

/-- A move and the pool after it. -/
inductive Turn (compile : Job → Except JobError Compiled) (p : Pool) : Move → Pool → Prop where
  | submit {entry unsent} (hUnsent : p.unsent = entry :: unsent)
      (hRoom : p.queue.length < p.capacity) :
      Turn compile p .submit { p with unsent, queue := p.queue ++ [entry] }
  | closeQueue (hUnsent : p.unsent = []) (hOpen : p.queueClosed = false) :
      Turn compile p .closeQueue { p with queueClosed := true }
  | take {number job index queue} (hWorker : p.workers[number]? = some .waiting)
      (hQueue : p.queue = (job, index) :: queue) :
      Turn compile p (.work number) ({ p with queue }.setWorker number (.holding job index))
  | leave {number} (hWorker : p.workers[number]? = some .waiting) (hQueue : p.queue = [])
      (hClosed : p.queueClosed = true) :
      Turn compile p (.work number) (p.setWorker number .left)
  | skip {number job index} (hWorker : p.workers[number]? = some (.holding job index))
      (hCancelled : p.cancelled = true) :
      Turn compile p (.work number)
        (p.setWorker number (.counting ⟨index, job.path, .error .cancelled⟩))
  | begin {number job index} (hWorker : p.workers[number]? = some (.holding job index))
      (hCancelled : p.cancelled = false) :
      Turn compile p (.work number) (p.setWorker number (.compiling job index))
  | compile {number job index} (hWorker : p.workers[number]? = some (.compiling job index)) :
      Turn compile p (.work number)
        (p.setWorker number (.counting ⟨index, job.path, compile job⟩))
  | count {number result} (hWorker : p.workers[number]? = some (.counting result)) :
      Turn compile p (.work number) ((p.count result).setWorker number (.sending result))
  | send {number result} (hWorker : p.workers[number]? = some (.sending result))
      (hRoom : p.channel.length < p.capacity) :
      Turn compile p (.work number)
        ({ p with channel := p.channel ++ [result] }.setWorker number .waiting)
  | closeChannel (hLeft : ∀ w ∈ p.workers, w = .left) (hOpen : p.channelClosed = false) :
      Turn compile p .closeChannel { p with channelClosed := true }
  | collect {result channel} (hChannel : p.channel = result :: channel)
      (hClosed : p.queueClosed = true) :
      Turn compile p .collect
        { p with channel, slots := p.slots.set result.index (some result) }
  | finish (hClosed : p.queueClosed = true) (hChannel : p.channel = [])
      (hEnd : p.channelClosed = true) (hOpen : p.finished = false) :
      Turn compile p .finish { p with finished := true }
  | cancel (hOpen : p.cancelled = false) : Turn compile p .cancel { p with cancelled := true }

theorem hasLeft_iff {w : Worker} : hasLeft w = true ↔ w = .left := by
  cases w <;> simp [hasLeft]

theorem turn_of_step {move : Move} (hStep : p.step compile move = some q) :
    Turn compile p move q := by
  cases move with
  | submit =>
    simp only [step] at hStep
    split at hStep
    · next entry unsent hUnsent =>
      split at hStep
      · next hRoom => cases hStep; exact .submit hUnsent hRoom
      · cases hStep
    · cases hStep
  | closeQueue =>
    simp only [step, Option.ite_none_right_eq_some, Bool.and_eq_true, List.isEmpty_iff,
      Bool.not_eq_true', Option.some.injEq] at hStep
    obtain ⟨⟨hUnsent, hOpen⟩, rfl⟩ := hStep
    exact .closeQueue hUnsent hOpen
  | work number =>
    simp only [step, Option.bind_eq_some_iff] at hStep
    obtain ⟨w, hWorker, hWork⟩ := hStep
    cases w with
    | waiting =>
      simp only [work] at hWork
      split at hWork
      · next hQueue => cases hWork; exact .take hWorker hQueue
      · next hQueue =>
        split at hWork
        · next hClosed => cases hWork; exact .leave hWorker hQueue hClosed
        · cases hWork
    | holding job index =>
      simp only [work] at hWork
      split at hWork
      · next hCancelled => cases hWork; exact .skip hWorker hCancelled
      · next hCancelled => cases hWork; exact .begin hWorker (by simpa using hCancelled)
    | compiling job index => cases hWork; exact .compile hWorker
    | counting result => cases hWork; exact .count hWorker
    | sending result =>
      simp only [work] at hWork
      split at hWork
      · next hRoom => cases hWork; exact .send hWorker hRoom
      · cases hWork
    | left => cases hWork
  | closeChannel =>
    simp only [step, Option.ite_none_right_eq_some, Bool.and_eq_true, List.all_eq_true,
      Bool.not_eq_true', Option.some.injEq, hasLeft_iff] at hStep
    obtain ⟨⟨hLeft, hOpen⟩, rfl⟩ := hStep
    exact .closeChannel hLeft hOpen
  | collect =>
    simp only [step] at hStep
    split at hStep
    · next result channel hChannel =>
      split at hStep
      · next hClosed => cases hStep; exact .collect hChannel hClosed
      · cases hStep
    · cases hStep
  | finish =>
    simp only [step, Option.ite_none_right_eq_some, Bool.and_eq_true, List.isEmpty_iff,
      Bool.not_eq_true', Option.some.injEq] at hStep
    obtain ⟨⟨⟨⟨hClosed, hChannel⟩, hEnd⟩, hOpen⟩, rfl⟩ := hStep
    exact .finish hClosed hChannel hEnd hOpen
  | cancel =>
    simp only [step, Option.ite_none_left_eq_some, Bool.not_eq_true, Option.some.injEq] at hStep
    obtain ⟨hOpen, rfl⟩ := hStep
    exact .cancel hOpen

/-- The indices of the inputs that no slot has the result of. -/
def pending (p : Pool) : List Nat :=
  (p.unsent ++ p.queue).map Prod.snd ++ (p.workers.filterMap Worker.index? ++
    p.channel.map BatchResult.index)

/-- The results that were counted. -/
def counted (p : Pool) : List BatchResult :=
  p.workers.filterMap Worker.counted? ++ (p.channel ++ p.slots.filterMap id)

/-- An entry of a list goes over to another one: what `f` finds in the list changes by what it finds
in the two. -/
theorem filterMap_set_perm {α β : Type} (f : α → Option β) {l : List α} {i : Nat} {a : α} (b : α)
    (hEntry : l[i]? = some a) :
    List.Perm ((f a).toList ++ (l.set i b).filterMap f) ((f b).toList ++ l.filterMap f) := by
  obtain ⟨hIndex, rfl⟩ := List.getElem?_eq_some_iff.mp hEntry
  have hCons (c : α) (rest : List α) :
      (c :: rest).filterMap f = (f c).toList ++ rest.filterMap f := by
    cases h : f c <;> simp [h]
  have hSet := (List.set_perm_cons_eraseIdx hIndex b).filterMap f
  have hSelf := (List.getElem_cons_eraseIdx_perm hIndex).filterMap f
  rw [hCons] at hSet hSelf
  calc (f l[i]).toList ++ (l.set i b).filterMap f
    _ |>.Perm ((f l[i]).toList ++ ((f b).toList ++ (l.eraseIdx i).filterMap f)) :=
        hSet.append_left _
    _ |>.Perm ((f b).toList ++ ((f l[i]).toList ++ (l.eraseIdx i).filterMap f)) := by
        simpa only [List.append_assoc] using List.perm_append_comm.append_right _
    _ |>.Perm ((f b).toList ++ l.filterMap f) := hSelf.append_left _

end Pool

end ScriptOptimizer
