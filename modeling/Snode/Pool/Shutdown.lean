import Mathlib.Data.List.Nodup
import Mathlib.Data.List.Range
import Mathlib.Data.Prod.Lex
import Snode.Pool.TaskOrder

/-!
# Starting and stopping a pool

A thread is listed in `threads_` before it registers its queue, and `schedule` and
`stop` depend on the queue.  They do what they are for exactly as long as they come
in time: no thread is scheduled to, or reached by the loop of `stop`, before it
registered, and `stop` is not called before any thread did.
-/

namespace Snode.Pool

variable {τ : Type}

namespace Stopping

/-- The thread `stop` is joining. -/
def current : Stopping → List ThreadId
  | joining thread _ => [thread]
  | _ => []

/-- The threads `stop` has still to cancel, of those listed. -/
def remaining (listed : List ThreadId) : Stopping → List ThreadId
  | idle => listed
  | loop threads => threads
  | joining _ threads => threads
  | returned => []
  | threw _ => []

end Stopping

namespace Worker

variable (worker : Worker τ)

theorem cancels_enqueue (entry : Op τ) :
    (worker.enqueue entry).cancels = worker.cancels + if entry.isCancel then 1 else 0 := by
  simp [cancels, enqueue, Channel.push, List.countP_append, List.countP_cons]

@[simp]
theorem cancels_dequeue : worker.dequeue.cancels = worker.cancels := by
  rw [dequeue]
  split <;> rfl

@[simp]
theorem cancels_run : worker.run.cancels = worker.cancels := by
  rw [run]
  split <;> rfl

@[simp]
theorem exited_dequeue : worker.dequeue.exited = worker.exited := by
  rw [dequeue]
  split <;> rfl

theorem exited_run (exited : worker.exited = true) : worker.run.exited = true := by
  rw [run]
  split
  · exact exited
  · exact exited
  · rfl

end Worker

namespace Threadpool

variable {pool next : Threadpool τ} {event : Event τ} {size : ℕ}

/-- What an event depends on: the threads it needs have registered their queues. -/
def InTime (pool : Threadpool τ) : Event τ → Prop
  | .schedule _ thread => (pool.workers thread).isSome = true
  | .stop => ∃ thread, (pool.workers thread).isSome = true
  | .stopGoes => ∀ thread threads, pool.stopping = .loop (thread :: threads) →
      (pool.workers thread).isSome = true
  | _ => True

/-- What `schedule` and `stop` are for: `schedule` never refused a task for a listed thread,
`stop` did not throw, and when it has returned, every thread was cancelled once and joined. -/
structure Kept (pool : Threadpool τ) : Prop where
  refused : pool.refused = []
  threw : ∀ what, pool.stopping ≠ .threw what
  returned : pool.stopping = .returned → ∀ thread, thread < pool.size →
    ∃ worker, pool.workers thread = some worker ∧ worker.cancels = 1 ∧
      worker.exited = true ∧ pool.joined.count thread = 1

/-- The invariant of a pool that is used in time. -/
structure Sound (pool : Threadpool τ) : Prop where
  refused : pool.refused = []
  threw : ∀ what, pool.stopping ≠ .threw what
  cleared : pool.stopping = .returned → pool.threads = []
  listed : pool.stopping ≠ .returned → pool.threads = List.range pool.size
  indexed : pool.stopping ≠ .returned → ∀ thread,
    thread ∈ pool.queuesIndex ↔ (pool.workers thread).isSome = true
  order : pool.joined ++ pool.stopping.current ++
    pool.stopping.remaining (List.range pool.size) = List.range pool.size
  cancels : ∀ thread worker, pool.workers thread = some worker →
    worker.cancels + (pool.stopping.remaining (List.range pool.size)).count thread = 1
  started : ∀ thread ∈ pool.joined ++ pool.stopping.current,
    (pool.workers thread).isSome = true
  exited : ∀ thread ∈ pool.joined, ∀ worker, pool.workers thread = some worker →
    worker.exited = true

theorem isSome_updateWorker (thread other : ThreadId) (update : Worker τ → Worker τ) :
    ((pool.updateWorker thread update).workers other).isSome =
      (pool.workers other).isSome := by
  rw [updateWorker_workers]
  split
  · next same => rw [same, Option.isSome_map]
  · rfl

theorem sound_new : (new size : Threadpool τ).Sound where
  refused := rfl
  threw what := Stopping.noConfusion
  cleared := Stopping.noConfusion
  listed _ := rfl
  indexed _ thread := by simp [new]
  order := rfl
  cancels thread worker present := by simp [new] at present
  started thread present := by simp [new, Stopping.current] at present
  exited thread present := by simp [new] at present

namespace Sound

theorem nodup (sound : pool.Sound) : (pool.joined ++ pool.stopping.current ++
    pool.stopping.remaining (List.range pool.size)).Nodup := by
  rw [sound.order]
  exact List.nodup_range

/-- Once `stop` has returned, it joined every thread. -/
theorem joined_of_returned (sound : pool.Sound) (returned : pool.stopping = .returned) :
    pool.joined = List.range pool.size := by
  have order := sound.order
  simpa [returned, Stopping.current, Stopping.remaining] using order

theorem started_of_returned (sound : pool.Sound) (returned : pool.stopping = .returned)
    {thread : ThreadId} (listed : thread < pool.size) :
    (pool.workers thread).isSome = true := by
  apply sound.started
  apply List.mem_append_left
  rw [sound.joined_of_returned returned]
  exact List.mem_range.mpr listed

theorem kept (sound : pool.Sound) : pool.Kept where
  refused := sound.refused
  threw := sound.threw
  returned := by
    intro returned thread listed
    have started := sound.started_of_returned returned listed
    rcases Option.isSome_iff_exists.mp started with ⟨worker, present⟩
    have joined := sound.joined_of_returned returned
    have wasJoined : thread ∈ pool.joined := by
      rw [joined]
      exact List.mem_range.mpr listed
    refine ⟨worker, present, ?_, sound.exited thread wasJoined worker present, ?_⟩
    · simpa [returned, Stopping.remaining] using sound.cancels thread worker present
    · rw [joined]
      exact List.count_eq_one_of_mem List.nodup_range (List.mem_range.mpr listed)

theorem updateWorker (sound : pool.Sound) (thread : ThreadId) {update : Worker τ → Worker τ}
    (sameCancels : ∀ worker, (update worker).cancels = worker.cancels)
    (stillExited : ∀ worker, worker.exited = true → (update worker).exited = true) :
    (pool.updateWorker thread update).Sound := by
  rw [updateWorker_eq]
  refine
    { refused := sound.refused
      threw := sound.threw
      cleared := sound.cleared
      listed := sound.listed
      order := sound.order
      indexed := ?_
      cancels := ?_
      started := ?_
      exited := ?_ }
  · intro notReturned other
    rw [isSome_updateWorker]
    exact sound.indexed notReturned other
  · intro other worker present
    rw [updateWorker_workers] at present
    rcases updated_cases present with ⟨-, present⟩ | ⟨before, rfl, found, rfl⟩
    · exact sound.cancels other worker present
    · rw [sameCancels]
      exact sound.cancels other before found
  · intro other present
    rw [isSome_updateWorker]
    exact sound.started other present
  · intro other joined worker present
    rw [updateWorker_workers] at present
    rcases updated_cases present with ⟨-, present⟩ | ⟨before, rfl, found, rfl⟩
    · exact sound.exited other joined worker present
    · exact stillExited before (sound.exited other joined before found)

theorem startThread (sound : pool.Sound) {thread : ThreadId} (listed : thread < pool.size)
    (fresh : pool.workers thread = none) : (pool.startThread thread).Sound := by
  have untouched : thread ∉ pool.joined ++ pool.stopping.current := by
    intro present
    have started := sound.started thread present
    simp [fresh] at started
  have remaining : thread ∈ pool.stopping.remaining (List.range pool.size) := by
    have present := List.mem_range.mpr listed
    rw [← sound.order] at present
    exact (List.mem_append.mp present).resolve_left untouched
  refine
    { refused := sound.refused
      threw := sound.threw
      cleared := sound.cleared
      listed := sound.listed
      order := sound.order
      indexed := ?_
      cancels := ?_
      started := ?_
      exited := ?_ }
  · intro notReturned other
    change other ∈ pool.queuesIndex ++ [thread] ↔
      (if other = thread then some Worker.new else pool.workers other).isSome = true
    rw [List.mem_append, List.mem_singleton, sound.indexed notReturned]
    split
    · next same => simp [same]
    · next other => simp [other]
  · intro other worker present
    change (if other = thread then some Worker.new else pool.workers other) = _ at present
    split at present
    · next same =>
        obtain rfl := Option.some.inj present
        subst same
        have once := List.count_eq_one_of_mem sound.nodup.of_append_right remaining
        exact (Nat.zero_add _).trans once
    · exact sound.cancels other worker present
  · intro other present
    change (if other = thread then some Worker.new else pool.workers other).isSome = true
    split
    · rfl
    · exact sound.started other present
  · intro other joined worker present
    change (if other = thread then some Worker.new else pool.workers other) = _ at present
    split at present
    · next same =>
        subst same
        exact (untouched (List.mem_append_left _ joined)).elim
    · exact sound.exited other joined worker present

theorem schedule_eq (sound : pool.Sound) (notReturned : pool.stopping ≠ .returned) (op : Op τ)
    {thread : ThreadId} (started : (pool.workers thread).isSome = true) :
    pool.schedule op thread = .ok (pool.updateWorker thread (·.enqueue op)) := by
  rw [schedule, if_pos ((sound.indexed notReturned thread).mpr started)]

theorem scheduleTask (sound : pool.Sound) (task : τ) {thread : ThreadId}
    (started : (pool.workers thread).isSome = true) :
    (pool.scheduleTask task thread).Sound := by
  have enqueued : (pool.updateWorker thread (·.enqueue (.task task))).Sound :=
    sound.updateWorker thread (fun worker => by simp [Worker.cancels_enqueue, Op.isCancel])
      fun worker exited => exited
  rw [Threadpool.scheduleTask]
  by_cases returned : pool.stopping = .returned
  · by_cases indexed : thread ∈ pool.queuesIndex
    · rw [schedule, if_pos indexed]
      exact enqueued
    · rw [schedule, if_neg indexed, sound.cleared returned]
      exact sound
  · rw [sound.schedule_eq returned (.task task) started]
    exact enqueued

theorem stop (sound : pool.Sound) (legal : pool.stopping = .idle ∨ pool.stopping = .returned)
    (registered : ∃ thread, (pool.workers thread).isSome = true) : pool.stop.Sound := by
  rw [Threadpool.stop]
  rcases legal with idle | returned
  · have notReturned : pool.stopping ≠ .returned := by simp [idle]
    have listed := sound.listed notReturned
    have indexed : pool.queuesIndex ≠ [] := by
      rcases registered with ⟨thread, started⟩
      exact List.ne_nil_of_mem ((sound.indexed notReturned thread).mpr started)
    have order := sound.order
    have cancels := sound.cancels
    have started := sound.started
    rw [idle] at order cancels started
    by_cases empty : pool.threads = []
    · rw [empty, List.isEmpty_nil, Bool.true_or, if_pos rfl]
      have none : List.range pool.size = [] := listed.symm.trans empty
      rw [none] at order cancels
      exact
        { refused := sound.refused
          threw := fun what => Stopping.noConfusion
          cleared := fun _ => rfl
          listed := fun other => (other rfl).elim
          indexed := fun other => (other rfl).elim
          order := by rwa [none]
          cancels := by rwa [none]
          started := started
          exited := sound.exited }
    · rw [if_neg (by simp [empty, indexed]), listed]
      exact
        { refused := sound.refused
          threw := fun what => Stopping.noConfusion
          cleared := Stopping.noConfusion
          listed := fun _ => rfl
          indexed := fun _ => sound.indexed notReturned
          order := order
          cancels := cancels
          started := started
          exited := sound.exited }
  · have same : { pool with stopping := .returned } = pool := by rw [← returned]
    have cleared : pool.threads.isEmpty = true := by rw [sound.cleared returned, List.isEmpty_nil]
    rw [cleared, Bool.true_or, if_pos rfl, same]
    exact sound

theorem clear (sound : pool.Sound) (ended : pool.stopping = .loop []) :
    pool.stopGoes.Sound := by
  have order := sound.order
  have cancels := sound.cancels
  have started := sound.started
  rw [ended] at order cancels started
  rw [stopGoes, ended]
  exact
    { refused := sound.refused
      threw := fun what => Stopping.noConfusion
      cleared := fun _ => rfl
      listed := fun other => (other rfl).elim
      indexed := fun other => (other rfl).elim
      order := order
      cancels := cancels
      started := started
      exited := sound.exited }

theorem stopThread (sound : pool.Sound) {thread : ThreadId} {threads : List ThreadId}
    (reached : pool.stopping = .loop (thread :: threads))
    (registered : (pool.workers thread).isSome = true) :
    pool.stopGoes = { pool.updateWorker thread (·.enqueue .cancel) with
      stopping := .joining thread threads } ∧ pool.stopGoes.Sound := by
  have notReturned : pool.stopping ≠ .returned := by simp [reached]
  have eq : pool.stopGoes = { pool.updateWorker thread (·.enqueue .cancel) with
      stopping := .joining thread threads } := by
    simp only [stopGoes, reached, Threadpool.stopThread]
    rw [sound.schedule_eq notReturned .cancel registered]
  refine ⟨eq, ?_⟩
  have order := sound.order
  have cancels := sound.cancels
  have started := sound.started
  rw [reached] at order cancels started
  rw [eq, updateWorker_eq]
  refine
    { refused := sound.refused
      threw := fun what => Stopping.noConfusion
      cleared := Stopping.noConfusion
      listed := fun _ => sound.listed notReturned
      indexed := ?_
      order := ?_
      cancels := ?_
      started := ?_
      exited := ?_ }
  · intro _ other
    rw [isSome_updateWorker]
    exact sound.indexed notReturned other
  · simpa [Stopping.current, Stopping.remaining] using order
  · intro other worker present
    rw [updateWorker_workers] at present
    rcases updated_cases present with ⟨different, present⟩ | ⟨before, rfl, found, rfl⟩
    · have once := cancels other worker present
      rwa [Stopping.remaining, List.count_cons_of_ne different.symm] at once
    · have once := cancels other before found
      rw [Stopping.remaining, List.count_cons_self] at once
      rw [Worker.cancels_enqueue, Stopping.remaining, Op.isCancel, if_pos rfl]
      omega
  · intro other present
    rw [isSome_updateWorker]
    simp only [Stopping.current, List.mem_append, List.mem_singleton] at present
    rcases present with joined | rfl
    · exact started other (List.mem_append_left _ joined)
    · exact registered
  · intro other joined worker present
    rw [updateWorker_workers] at present
    rcases updated_cases present with ⟨-, present⟩ | ⟨before, rfl, found, rfl⟩
    · exact sound.exited other joined worker present
    · exact sound.exited other joined before found

theorem join (sound : pool.Sound) {thread : ThreadId} {threads : List ThreadId}
    (joining : pool.stopping = .joining thread threads) {worker : Worker τ}
    (present : pool.workers thread = some worker) (exited : worker.exited = true) :
    pool.stopGoes.Sound := by
  have notReturned : pool.stopping ≠ .returned := by simp [joining]
  have order := sound.order
  have cancels := sound.cancels
  have started := sound.started
  rw [joining] at order cancels started
  rw [stopGoes, joining]
  refine
    { refused := sound.refused
      threw := fun what => Stopping.noConfusion
      cleared := Stopping.noConfusion
      listed := fun _ => sound.listed notReturned
      indexed := fun _ => sound.indexed notReturned
      order := ?_
      cancels := cancels
      started := ?_
      exited := ?_ }
  · simpa [Stopping.current, Stopping.remaining] using order
  · simpa [Stopping.current] using started
  · intro other joined last found
    rcases List.mem_append.mp joined with joined | same
    · exact sound.exited other joined last found
    · obtain rfl := List.mem_singleton.mp same
      obtain rfl : worker = last := Option.some.inj (present.symm.trans found)
      exact exited

/-- The step lemma: used in time, a pool stays sound. -/
theorem exec (sound : pool.Sound) (legal : pool.Legal event) (inTime : pool.InTime event) :
    (pool.exec event).Sound := by
  cases event with
  | startThread thread => exact sound.startThread legal.1 legal.2
  | schedule task thread => exact sound.scheduleTask task inTime
  | dequeue thread =>
      exact sound.updateWorker thread Worker.cancels_dequeue fun worker exited => by
        rwa [Worker.exited_dequeue]
  | run thread => exact sound.updateWorker thread Worker.cancels_run Worker.exited_run
  | stop => exact sound.stop legal inTime
  | stopGoes =>
      rcases legal with ⟨threads, loop⟩ | ⟨thread, threads, worker, joining, present, exited⟩
      · cases threads with
        | nil => exact sound.clear loop
        | cons thread threads =>
            exact (sound.stopThread loop (inTime thread threads loop)).2
      · exact sound.join joining present exited

/-- Where the pool does what it is for, it was used in time. -/
theorem inTime (sound : pool.Sound) (legal : pool.Legal event) (positive : 0 < pool.size)
    (kept : (pool.exec event).Kept) : pool.InTime event := by
  cases event with
  | startThread | dequeue | run => trivial
  | schedule task thread =>
      change (pool.workers thread).isSome = true
      by_cases returned : pool.stopping = .returned
      · exact sound.started_of_returned returned legal
      · by_contra notStarted
        have unindexed := mt (sound.indexed returned thread).mp notStarted
        have listed : thread ∈ pool.threads := by
          rw [sound.listed returned]
          exact List.mem_range.mpr legal
        have refused := kept.refused
        rw [Threadpool.exec, Threadpool.scheduleTask, schedule, if_neg unindexed] at refused
        simp [listed] at refused
  | stop =>
      by_cases returned : pool.stopping = .returned
      · exact ⟨0, sound.started_of_returned returned positive⟩
      · by_contra none
        have unindexed : pool.queuesIndex = [] := by
          apply List.eq_nil_iff_forall_not_mem.mpr
          intro thread indexed
          exact none ⟨thread, (sound.indexed returned thread).mp indexed⟩
        have returns := kept.returned
        rw [Threadpool.exec, Threadpool.stop, unindexed, List.isEmpty_nil, Bool.or_true,
          if_pos rfl] at returns
        rcases returns rfl 0 positive with ⟨worker, present, -⟩
        exact none ⟨0, Option.isSome_iff_exists.mpr ⟨worker, present⟩⟩
  | stopGoes =>
      intro thread threads reached
      have notReturned : pool.stopping ≠ .returned := by simp [reached]
      by_contra notStarted
      have unindexed := mt (sound.indexed notReturned thread).mp notStarted
      have threw := kept.threw threadpoolMsg
      simp only [Threadpool.exec, stopGoes, reached, Threadpool.stopThread, schedule,
        if_neg unindexed] at threw
      exact threw rfl

end Sound

theorem size_exec (pool : Threadpool τ) (event : Event τ) :
    (pool.exec event).size = pool.size := by
  have updated (thread : ThreadId) (update : Worker τ → Worker τ) :
      (pool.updateWorker thread update).size = pool.size := by rw [updateWorker_eq]
  cases event with
  | startThread => rfl
  | schedule task thread =>
      by_cases indexed : thread ∈ pool.queuesIndex
      · rw [exec, scheduleTask, schedule, if_pos indexed]
        exact updated thread _
      · rw [exec, scheduleTask, schedule, if_neg indexed]
        by_cases listed : thread ∈ pool.threads <;> simp [listed]
  | dequeue thread => exact updated thread _
  | run thread => exact updated thread _
  | stop =>
      rw [exec, stop]
      split <;> rfl
  | stopGoes =>
      rcases stopping : pool.stopping with _ | ⟨_ | ⟨thread, threads⟩⟩ | ⟨thread, threads⟩ | _ | what
      case loop.cons =>
        by_cases indexed : thread ∈ pool.queuesIndex
        · simpa [exec, stopGoes, stopping, stopThread, schedule, indexed] using updated thread _
        · simp [exec, stopGoes, stopping, stopThread, schedule, indexed]
      all_goals simp [exec, stopGoes, stopping]

theorem size_foldl (pool : Threadpool τ) (events : List (Event τ)) :
    (events.foldl exec pool).size = pool.size := by
  induction events generalizing pool with
  | nil => rfl
  | cons event events ih => rw [List.foldl_cons, ih, size_exec]

/-! ### Runs -/

/-- Every event of a run comes in time. -/
def RunInTime (pool : Threadpool τ) (events : List (Event τ)) : Prop :=
  ∀ before event after, events = before ++ event :: after →
    (before.foldl exec pool).InTime event

theorem RunInTime.append {events more : List (Event τ)}
    (inTime : pool.RunInTime (events ++ more)) : pool.RunInTime events := by
  rintro before event after rfl
  exact inTime before event (after ++ more) (by simp)

theorem runInTime_cons {events : List (Event τ)} :
    pool.RunInTime (event :: events) ↔
      pool.InTime event ∧ (pool.exec event).RunInTime events := by
  constructor
  · intro inTime
    refine ⟨inTime [] event events rfl, ?_⟩
    rintro before other after rfl
    exact inTime (event :: before) other after rfl
  · rintro ⟨first, rest⟩ before other after split
    cases before with
    | nil =>
        obtain rfl : event = other := (List.cons_eq_cons.mp split).1
        exact first
    | cons earlier before =>
        rcases List.cons_eq_cons.mp split with ⟨rfl, rfl⟩
        exact rest before other after rfl

theorem RunInTime.sound {events : List (Event τ)} (sound : pool.Sound)
    (follows : (system τ).Follows exec pool events) (inTime : pool.RunInTime events) :
    (events.foldl exec pool).Sound := by
  induction events using List.reverseRecOn with
  | nil => exact sound
  | append_singleton events event ih =>
      rcases Lts.follows_append.mp follows with ⟨earlier, last⟩
      rw [List.foldl_append]
      exact (ih earlier inTime.append).exec last.1.1 (inTime events event [] rfl)

theorem runInTime_of_kept {events : List (Event τ)} (sound : pool.Sound) (positive : 0 < pool.size)
    (follows : (system τ).Follows exec pool events)
    (kept : ∀ before, before <+: events → (before.foldl exec pool).Kept) :
    pool.RunInTime events := by
  induction events using List.reverseRecOn with
  | nil =>
      intro before event after split
      simp at split
  | append_singleton events event ih =>
      rcases Lts.follows_append.mp follows with ⟨earlier, last⟩
      have earlierInTime := ih earlier fun before isStart =>
        kept before (isStart.trans (List.prefix_append _ _))
      have reached := earlierInTime.sound sound earlier
      intro before other after split
      rcases List.eq_nil_or_concat after with rfl | ⟨after, final, rfl⟩
      · rcases List.append_inj' split rfl with ⟨rfl, same⟩
        obtain rfl : event = other := (List.cons_eq_cons.mp same).1
        refine reached.inTime last.1.1 (by rwa [size_foldl]) ?_
        have whole := kept (events ++ [event]) List.prefix_rfl
        rwa [List.foldl_append] at whole
      · rw [List.concat_eq_append, ← List.cons_append, ← List.append_assoc] at split
        rcases List.append_inj' split rfl with ⟨rfl, -⟩
        exact earlierInTime before other after rfl

end Threadpool

end Snode.Pool
