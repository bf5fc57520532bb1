import Snode.Lib.Channel
import Snode.Lib.Fair

/-!
# The thread pool

`threadpool.h` and `synchronised_queue.h` function by function.  The constructor
has created all threads and published them in `threads_`; each of them still has to
get to the point where it registers its queue in `queues_index_`.  From then on
its loop takes a task out of the queue and runs it, until one throws the error that
cancels the thread.  `schedule` and `stop` may be called by other threads at any time.

Beside the state of the source the model keeps some history: what went through a
queue, what was run, which threads were joined, and to which listed threads
`schedule` refused a task.
-/

namespace Snode.Pool

/-- A thread of the pool, in the order of creation. -/
abbrev ThreadId : Type := ℕ

/-- An entry of a task queue: a task that was scheduled, or the one `stop_thread` posts. -/
inductive Op (τ : Type) where
  | task (value : τ)
  | cancel

namespace Op

variable {τ : Type}

def isCancel : Op τ → Bool
  | task _ => false
  | cancel => true

/-- The tasks among some entries. -/
def tasks (ops : List (Op τ)) : List τ :=
  ops.filterMap fun
    | task value => some value
    | cancel => none

end Op

/-- A thread that entered `start_thread` and registered its queue. -/
structure Worker (τ : Type) where
  /-- `queue_impl_`. -/
  queue : List (Op τ)
  /-- What the thread has dequeued and is about to run. -/
  running : Option (Op τ)
  exited : Bool
  /-- Everything that was enqueued and dequeued. -/
  channel : Channel (Op τ)
  /-- The tasks that were run. -/
  ran : List τ

namespace Worker

variable {τ : Type}

def new : Worker τ where
  queue := []
  running := none
  exited := false
  channel := Channel.empty
  ran := []

def enqueue (worker : Worker τ) (entry : Op τ) : Worker τ :=
  { worker with
    queue := worker.queue ++ [entry]
    channel := worker.channel.push [entry] }

/-- The front of the queue; an empty queue keeps the thread waiting. -/
def dequeue (worker : Worker τ) : Worker τ :=
  match worker.queue with
  | [] => worker
  | result :: queue =>
      { worker with
        queue := queue
        running := some result
        channel := worker.channel.pop 1 }

/-- `task->run()`; the cancel task throws, and the loop is left with what is still queued.
Other tasks return; where one would throw, `start_thread` throws the exception on and the process
ends, which is for the user of the pool to tell. -/
def run (worker : Worker τ) : Worker τ :=
  match worker.running with
  | none => worker
  | some (.task task) => { worker with running := none, ran := worker.ran ++ [task] }
  | some .cancel => { worker with running := none, exited := true }

/-- How many cancel tasks were posted to the thread. -/
def cancels (worker : Worker τ) : ℕ :=
  worker.channel.stored.countP Op.isCancel

end Worker

/-- Where the call of `stop` is. -/
inductive Stopping where
  | idle
  /-- At the head of the loop, with the threads from `iter` on. -/
  | loop (threads : List ThreadId)
  /-- In `join`, with the threads behind `iter`. -/
  | joining (thread : ThreadId) (threads : List ThreadId)
  | returned
  | threw (what : String)

structure Threadpool (τ : Type) where
  /-- `size_`. -/
  size : ℕ
  /-- `threads_`. -/
  threads : List ThreadId
  /-- The keys of `queues_index_`. -/
  queuesIndex : List ThreadId
  workers : ThreadId → Option (Worker τ)
  stopping : Stopping
  /-- The threads `stop` joined. -/
  joined : List ThreadId
  /-- The listed threads to which `schedule` threw. -/
  refused : List ThreadId

/-- `s_threadpool_msg`. -/
def threadpoolMsg : String := "invalid thread id"

/-- What happens next to a pool. -/
inductive Event (τ : Type) where
  /-- A thread enters `start_thread` and registers its queue. -/
  | startThread (thread : ThreadId)
  /-- Some thread calls `schedule`. -/
  | schedule (task : τ) (thread : ThreadId)
  | dequeue (thread : ThreadId)
  | run (thread : ThreadId)
  /-- `stop` is called. -/
  | stop
  /-- The call of `stop` goes on. -/
  | stopGoes

namespace Threadpool

variable {τ : Type}

/-- A pool at the end of its construction. -/
def new (size : ℕ) : Threadpool τ where
  size := size
  threads := List.range size
  queuesIndex := []
  workers := fun _ => none
  stopping := .idle
  joined := []
  refused := []

def setWorker (pool : Threadpool τ) (thread : ThreadId) (worker : Worker τ) : Threadpool τ :=
  { pool with workers := fun other => if other = thread then some worker else pool.workers other }

def updateWorker (pool : Threadpool τ) (thread : ThreadId) (update : Worker τ → Worker τ) :
    Threadpool τ :=
  match pool.workers thread with
  | none => pool
  | some worker => pool.setWorker thread (update worker)

@[simp]
theorem updateWorker_workers (pool : Threadpool τ) (thread other : ThreadId)
    (update : Worker τ → Worker τ) :
    (pool.updateWorker thread update).workers other =
      if other = thread then (pool.workers thread).map update else pool.workers other := by
  rw [updateWorker]
  cases worker : pool.workers thread with
  | none => by_cases same : other = thread <;> simp [same, worker]
  | some worker => rfl

theorem updateWorker_eq (pool : Threadpool τ) (thread : ThreadId)
    (update : Worker τ → Worker τ) :
    pool.updateWorker thread update =
      { pool with workers := (pool.updateWorker thread update).workers } := by
  rw [updateWorker]
  cases pool.workers thread <;> rfl

/-- The beginning of `start_thread`. -/
def startThread (pool : Threadpool τ) (thread : ThreadId) : Threadpool τ :=
  { pool.setWorker thread Worker.new with queuesIndex := pool.queuesIndex ++ [thread] }

/-- `schedule`, for tasks and the one that cancels a thread. -/
def schedule (pool : Threadpool τ) (task : Op τ) (thread : ThreadId) :
    Except String (Threadpool τ) :=
  if thread ∈ pool.queuesIndex then
    .ok (pool.updateWorker thread (·.enqueue task))
  else
    .error threadpoolMsg

def stopThread (pool : Threadpool τ) (thread : ThreadId) : Except String (Threadpool τ) :=
  pool.schedule .cancel thread

/-- A call of `schedule` by a user of the pool, who gets the exception. -/
def scheduleTask (pool : Threadpool τ) (task : τ) (thread : ThreadId) : Threadpool τ :=
  match pool.schedule (.task task) thread with
  | .ok next => next
  | .error _ =>
      if thread ∈ pool.threads then { pool with refused := pool.refused ++ [thread] } else pool

/-- The beginning of `stop`. -/
def stop (pool : Threadpool τ) : Threadpool τ :=
  if pool.threads.isEmpty || pool.queuesIndex.isEmpty then
    { pool with stopping := .returned }
  else
    { pool with stopping := .loop pool.threads }

/-- The next step of `stop`: cancel a thread, be done with joining it, or clear the pool. -/
def stopGoes (pool : Threadpool τ) : Threadpool τ :=
  match pool.stopping with
  | .loop [] => { pool with threads := [], queuesIndex := [], stopping := .returned }
  | .loop (thread :: threads) =>
      match pool.stopThread thread with
      | .ok next => { next with stopping := .joining thread threads }
      | .error what => { pool with stopping := .threw what }
  | .joining thread threads =>
      { pool with stopping := .loop threads, joined := pool.joined ++ [thread] }
  | _ => pool

/-- When an event can happen. -/
def Legal (pool : Threadpool τ) : Event τ → Prop
  | .startThread thread => thread < pool.size ∧ pool.workers thread = none
  | .schedule _ thread => thread < pool.size
  | .dequeue thread =>
      ∃ worker, pool.workers thread = some worker ∧ worker.exited = false ∧
        worker.running.isNone = true ∧ worker.queue ≠ []
  | .run thread =>
      ∃ worker, pool.workers thread = some worker ∧ worker.running.isSome = true
  | .stop => pool.stopping = .idle ∨ pool.stopping = .returned
  | .stopGoes =>
      (∃ threads, pool.stopping = .loop threads) ∨
        ∃ thread threads worker, pool.stopping = .joining thread threads ∧
          pool.workers thread = some worker ∧ worker.exited = true

def exec (pool : Threadpool τ) : Event τ → Threadpool τ
  | .startThread thread => pool.startThread thread
  | .schedule task thread => pool.scheduleTask task thread
  | .dequeue thread => pool.updateWorker thread Worker.dequeue
  | .run thread => pool.updateWorker thread Worker.run
  | .stop => pool.stop
  | .stopGoes => pool.stopGoes

/-- All interleavings of the threads of a pool and its users. -/
def system (τ : Type) : Lts (Threadpool τ) (Event τ) where
  step pool event next := pool.Legal event ∧ next = pool.exec event

end Threadpool

end Snode.Pool
