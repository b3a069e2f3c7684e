import ScriptOptimizer.Batch

/-!
Sharing a batch out among workers. One party puts the jobs into a queue and closes it, each worker
takes jobs from the queue and sends their results through a channel, the channel is closed when all
workers have left, and the first party stores what comes out of it. Queue and channel have room for
as many entries as there are jobs. A schedule names the party that moves next; moves of different
parties may alternate in any way, and the batch may be cancelled between any two of them.
-/

namespace ScriptOptimizer

/-- What a worker is about to do. -/
inductive Worker where
  /-- Take a job. -/
  | waiting
  /-- Look whether the batch was cancelled. -/
  | holding (job : Job) (index : Nat)
  /-- Compile. -/
  | compiling (job : Job) (index : Nat)
  /-- Count the result. -/
  | counting (result : BatchResult)
  /-- Send the result. -/
  | sending (result : BatchResult)
  /-- Nothing more. -/
  | left

/-- A batch in progress. `unsent` are the jobs that are still to be put into the queue, each with
its index; queue and channel hold their oldest entry first. A slot that nothing was stored in is
`none`. -/
structure Pool where
  capacity : Nat
  unsent : List (Job × Nat)
  queue : List (Job × Nat)
  queueClosed : Bool
  workers : List Worker
  channel : List BatchResult
  channelClosed : Bool
  slots : List (Option BatchResult)
  completed : Nat
  failed : Nat
  cancelled : Bool
  finished : Bool

namespace Pool

/-- So many workers before their first move. -/
def start (jobs : List Job) (workers : Nat) : Pool where
  capacity := jobs.length
  unsent := jobs.zipIdx
  queue := []
  queueClosed := false
  workers := List.replicate workers .waiting
  channel := []
  channelClosed := false
  slots := List.replicate jobs.length none
  completed := 0
  failed := 0
  cancelled := false
  finished := false

/-- A move: of the first party (`submit`, `closeQueue`, `collect`, `finish`), of the worker with a
number, of the one that closes the channel, or of whoever cancels the batch. -/
inductive Move where
  | submit
  | closeQueue
  | work (number : Nat)
  | closeChannel
  | collect
  | finish
  | cancel
deriving DecidableEq, Repr

/-- The worker with a number goes on as given. -/
def setWorker (p : Pool) (number : Nat) (w : Worker) : Pool :=
  { p with workers := p.workers.set number w }

/-- One more result is counted. -/
def count (p : Pool) (r : BatchResult) : Pool :=
  if Batch.succeeded r then { p with completed := p.completed + 1 }
  else { p with failed := p.failed + 1 }

/-- The next move of a worker. It takes the oldest job; a job that it takes after the batch was
cancelled it does not compile. It leaves when the queue is closed and empty. -/
def work (compile : Job → Except JobError Compiled) (p : Pool) (number : Nat) :
    Worker → Option Pool
  | .waiting =>
    match p.queue with
    | (job, index) :: queue => some ({ p with queue }.setWorker number (.holding job index))
    | [] => if p.queueClosed then some (p.setWorker number .left) else none
  | .holding job index =>
    if p.cancelled then some (p.setWorker number (.counting ⟨index, job.path, .error .cancelled⟩))
    else some (p.setWorker number (.compiling job index))
  | .compiling job index =>
    some (p.setWorker number (.counting ⟨index, job.path, compile job⟩))
  | .counting result => some ((p.count result).setWorker number (.sending result))
  | .sending result =>
    if p.channel.length < p.capacity then
      some ({ p with channel := p.channel ++ [result] }.setWorker number .waiting)
    else none
  | .left => none

/-- Has the worker left? -/
def hasLeft : Worker → Bool
  | .left => true
  | _ => false

/-- The pool after a move; none if the party cannot move so. The first party collects once it has
closed the queue. -/
def step (compile : Job → Except JobError Compiled) (p : Pool) : Move → Option Pool
  | .submit =>
    match p.unsent with
    | entry :: unsent =>
      if p.queue.length < p.capacity then some { p with unsent, queue := p.queue ++ [entry] }
      else none
    | [] => none
  | .closeQueue =>
    if p.unsent.isEmpty && !p.queueClosed then some { p with queueClosed := true } else none
  | .work number => (p.workers[number]?).bind (p.work compile number)
  | .closeChannel =>
    if p.workers.all hasLeft && !p.channelClosed then some { p with channelClosed := true }
    else none
  | .collect =>
    match p.channel with
    | result :: channel =>
      if p.queueClosed then
        some { p with channel, slots := p.slots.set result.index (some result) }
      else none
    | [] => none
  | .finish =>
    if p.queueClosed && p.channel.isEmpty && p.channelClosed && !p.finished then
      some { p with finished := true }
    else none
  | .cancel => if p.cancelled then none else some { p with cancelled := true }

/-- The pool after a schedule; none if a party cannot move when the schedule says so. -/
def play (compile : Job → Except JobError Compiled) (p : Pool) : List Move → Option Pool
  | [] => some p
  | move :: moves => (p.step compile move).bind fun q => q.play compile moves

end Pool

end ScriptOptimizer
