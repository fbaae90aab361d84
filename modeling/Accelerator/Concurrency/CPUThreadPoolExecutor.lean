import Accelerator.Interleaving

namespace Acc.Concurrency.CPUThreadPoolExecutor

inductive CPUTask
  | poison
  | task (id expiration : Nat)
  deriving DecidableEq, Repr

inductive Worker
  | unborn
  | starting
  | take
  | poisoned
  | failed
  | run (id expiration : Nat)
  | checkStop
  | checkJoin
  | tryStop
  | undo
  | stopping
  | locked
  | removed
  | added
  | done
  deriving DecidableEq, Repr

inductive Call
  | setNumThreads (n : Nat)
  | stop
  | join
  deriving DecidableEq, Repr

namespace Call

def isJoin : Call → Bool
  | .stop => false
  | _ => true

def target : Call → Nat
  | .setNumThreads n => n
  | _ => 0

end Call

inductive Control
  | idle
  | acquire (call : Call)
  | locked (call : Call)
  | addThreads (call : Call) (n : Nat)
  | startup (call : Call)
  | removeThreads (call : Call) (n : Nat)
  | stopThreads (call : Call) (n : Nat)
  | addPoison (call : Call) (n i : Nat)
  | release (call : Call) (n : Nat)
  | joinStopped (call : Call) (n : Nat)
  | joinThread (call : Call) (thread n : Nat)
  deriving DecidableEq, Repr

inductive Owner
  | control
  | worker (id : Nat)
  deriving DecidableEq, Repr

structure Mem where
  queue : List CPUTask := []
  threadsToStop : Int := 0
  isJoin : Bool := false
  lock : Option Owner := none
  threadList : List Nat := []
  stoppedThreads : List Nat := []
  nextId : Nat := 0
  control : Control := .idle
  enqueued : List CPUTask := []
  taken : List (Nat × CPUTask) := []
  tasks : Nat := 0
  finished : List (Nat × Nat × Bool) := []

abbrev State := Interleaving.State Mem Worker Nat

def start (isJoin : Bool) : State := .all Nat { isJoin } .unborn

structure Choice where
  place : Nat := 0
  waitTime : Nat := 0

def fifo (_ : List CPUTask) (place : Nat) : Bool := place == 0

section Steps

variable (pick : List CPUTask → Nat → Bool)

def Mem.put (m : Mem) (task : CPUTask) : Mem :=
  { m with queue := m.queue ++ [task], enqueued := m.enqueued ++ [task] }

def take (ch : Choice) (id : Nat) (m : Mem) : Option (Mem × Worker) :=
  match m.queue[ch.place]? with
  | none => none
  | some task =>
    if pick m.queue ch.place then
      let m' := { m with queue := m.queue.eraseIdx ch.place, taken := m.taken ++ [(id, task)] }
      match task with
      | .poison => some (m', .poisoned)
      | .task t expiration => some (m', .run t expiration)
    else none

def workerStep (ch : Choice) (id : Nat) (m : Mem) : Worker → Option (Mem × Worker)
  | .unborn => none
  | .starting => some (m, .take)
  | .take => take pick ch id m
  | .poisoned =>
    some ({ m with threadsToStop := m.threadsToStop - 1 },
      if m.threadsToStop > 0 then .stopping else .failed)
  | .failed => none
  | .run t expiration =>
    let expired := expiration > 0 && ch.waitTime ≥ expiration
    some ({ m with finished := m.finished ++ [(id, t, expired)] }, .checkStop)
  | .checkStop => some (m, if m.threadsToStop > 0 then .checkJoin else .take)
  | .checkJoin => some (m, if !m.isJoin then .tryStop else .take)
  | .tryStop =>
    some ({ m with threadsToStop := m.threadsToStop - 1 },
      if m.threadsToStop - 1 ≥ 0 then .stopping else .undo)
  | .undo => some ({ m with threadsToStop := m.threadsToStop + 1 }, .take)
  | .stopping =>
    if m.lock = none then some ({ m with lock := some (.worker id) }, .locked) else none
  | .locked => some ({ m with threadList := m.threadList.erase id }, .removed)
  | .removed => some ({ m with stoppedThreads := m.stoppedThreads ++ [id] }, .added)
  | .added => some ({ m with lock := none }, .done)
  | .done => none

def resize (call : Call) (current : Nat) : Control :=
  match call with
  | .setNumThreads n =>
    if n > current then .addThreads call (n - current)
    else if n < current then .removeThreads call (current - n)
    else .release call 0
  | _ => .removeThreads call current

def controlStep (s : State) : Option State :=
  let m := s.mem
  match m.control with
  | .idle => none
  | .acquire call =>
    if m.lock = none then
      some { s with mem := { m with lock := some .control, control := .locked call } }
    else none
  | .locked call => some { s with mem := { m with control := resize call m.threadList.length } }
  | .addThreads call (n + 1) =>
    some ⟨{ m with threadList := m.threadList ++ [m.nextId], nextId := m.nextId + 1,
                   control := .addThreads call n },
      Function.update s.pc m.nextId .starting⟩
  | .addThreads call 0 => some { s with mem := { m with control := .startup call } }
  | .startup call =>
    if m.threadList.all fun id => s.pc id != .starting then
      some { s with mem := { m with control := .release call 0 } }
    else none
  | .removeThreads call n =>
    some { s with mem := { m with isJoin := call.isJoin, control := .stopThreads call n } }
  | .stopThreads call n =>
    some { s with mem := { m with threadsToStop := m.threadsToStop + n,
                                  control := .addPoison call n n } }
  | .addPoison call n (i + 1) =>
    some { s with mem := { m.put .poison with control := .addPoison call n i } }
  | .addPoison call n 0 => some { s with mem := { m with control := .release call n } }
  | .release call n =>
    some { s with mem := { m with lock := none, control := .joinStopped call n } }
  | .joinStopped call (n + 1) =>
    match m.stoppedThreads with
    | [] => none
    | thread :: rest =>
      some { s with mem := { m with stoppedThreads := rest,
                                    control := .joinThread call thread n } }
  | .joinStopped _ 0 => some { s with mem := { m with control := .idle } }
  | .joinThread call thread n =>
    if s.pc thread = .done then
      some { s with mem := { m with control := .joinStopped call n } }
    else none

inductive Event
  | add (expiration : Nat)
  | call (call : Call)
  | control
  | worker (id : Nat) (ch : Choice)

def step (s : State) : Event → Option State
  | .add expiration =>
    let m := s.mem.put (.task s.mem.tasks expiration)
    some { s with mem := { m with tasks := m.tasks + 1 } }
  | .call call =>
    if s.mem.control = .idle then some { s with mem := { s.mem with control := .acquire call } }
    else none
  | .control => controlStep s
  | .worker id ch =>
    (workerStep pick ch id s.mem (s.pc id)).map fun r => ⟨r.1, Function.update s.pc id r.2⟩

def StepOf (ok : State → Event → Prop) (s s' : State) : Prop :=
  ∃ e, ok s e ∧ step pick s e = some s'

def Runs (ok : State → Event → Prop) : State → State → Prop := Relation.ReflTransGen (StepOf pick ok)

end Steps

end Acc.Concurrency.CPUThreadPoolExecutor
