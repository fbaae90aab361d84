import Accelerator.Concurrency.CPUThreadPoolExecutor

namespace Acc.Concurrency.CPUThreadPoolExecutor

open Worker List Bool

open Interleaving (Settled tally plus Leads)

inductive Kind
  | busy
  | poisoned
  | checkJoin
  | tryStop
  | undo
  | departing
  | removed
  | listed
  deriving DecidableEq

@[simp]
def Worker.is : Kind → Worker → Bool
  | .busy, .starting => true
  | .busy, .take => true
  | .busy, .run .. => true
  | .busy, .checkStop => true
  | .poisoned, .poisoned => true
  | .checkJoin, .checkJoin => true
  | .tryStop, .tryStop => true
  | .undo, .undo => true
  | .departing, .stopping => true
  | .departing, .locked => true
  | .removed, .removed => true
  | .listed, .unborn => false
  | .listed, .failed => false
  | .listed, .removed => false
  | .listed, .added => false
  | .listed, .done => false
  | .listed, _ => true
  | _, _ => false

abbrev more (n : Kind → Nat) (p : Worker) : Kind → Nat := plus is n p

def owing (n : Kind → Nat) : Nat :=
  n .busy + n .poisoned + n .checkJoin + n .tryStop + n .undo

namespace Control

def call : Control → Option Call
  | .idle => none
  | .acquire call => some call
  | .locked call => some call
  | .addThreads call _ => some call
  | .startup call => some call
  | .removeThreads call _ => some call
  | .stopThreads call _ => some call
  | .addPoison call _ _ => some call
  | .release call _ => some call
  | .joinStopped call _ => some call
  | .joinThread call _ _ => some call

def removing : Control → Option Call
  | .addPoison call _ _ => some call
  | .release call _ => some call
  | .joinStopped call _ => some call
  | .joinThread call _ _ => some call
  | _ => none

def left : Control → Nat
  | .addPoison _ n _ => n
  | .release _ n => n
  | .joinStopped _ n => n
  | .joinThread _ _ n => n
  | _ => 0

def poisonLeft : Control → Nat
  | .addPoison _ _ i => i
  | _ => 0

def moded : Control → Option Call
  | .stopThreads call _ => some call
  | c => c.removing

def asks : Control → Option Call
  | .stopThreads call _ => some call
  | c => if 0 < c.left then c.removing else none

def Plan (owing : Nat) : Control → Prop
  | .addThreads call n => owing + n = call.target
  | .startup call => owing = call.target
  | .removeThreads call n => owing = n + call.target
  | .stopThreads call n => owing = n + call.target
  | _ => True

variable {c : Control}

lemma removing_of_left (h : 0 < c.left) : ∃ call, c.removing = some call := by
  cases c with
  | addPoison call | release call | joinStopped call | joinThread call => exact ⟨call, rfl⟩
  | _ => exact absurd h (lt_irrefl 0)

variable {call : Call}

lemma asks_of_removing (h : c.removing = some call) (hpos : 0 < c.left) : c.asks = some call := by
  cases c with
  | stopThreads => cases h
  | _ => exact (if_pos hpos).trans h

lemma plan_of_removing (h : c.removing = some call) (k : Nat) : c.Plan k := by
  cases c with
  | addPoison | release | joinStopped | joinThread => trivial
  | _ => cases h

lemma moded_of_removing (h : c.removing = some call) : c.moded = some call := by
  cases c with
  | stopThreads => cases h
  | _ => exact h

lemma moded_of_asks (h : c.asks = some call) : c.moded = some call := by
  unfold asks at h
  split at h
  · exact h
  · split at h
    · exact moded_of_removing h
    · cases h

end Control

def Mem.poison (m : Mem) : Nat := m.queue.count .poison

def requests (n : Kind → Nat) (m : Mem) : Int := m.threadsToStop + n .undo

structure Balance (strict : Bool) (n : Kind → Nat) (m : Mem) : Prop where
  due : requests n m + n .departing + n .removed + m.stoppedThreads.length = m.control.left
  nonneg : 0 ≤ requests n m
  goal : ∀ call, m.control.removing = some call → owing n = requests n m + call.target
  plan : m.control.Plan (owing n)
  poison : m.control.removing ≠ some .stop → strict = true ∨ 0 < owing n →
    requests n m = m.poison + n .poisoned + m.control.poisonLeft
  trying : m.control.moded ≠ some .stop → n .tryStop = 0 ∧ n .undo = 0
  stale : m.control.moded ≠ some .stop → m.isJoin = false → n .checkJoin = 0
  mode : ∀ call, m.control.asks = some call → m.isJoin = call.isJoin
  calls : strict = true → m.control.call ≠ some .stop

section Balance

variable {strict : Bool} {n n' : Kind → Nat} {m m' : Mem}

lemma Call.eq_stop {call : Call} (h : call.isJoin = false) : call = .stop := by
  cases call with
  | stop => rfl
  | _ => cases h

lemma Balance.removing (h : Balance strict n m) (hr : 0 < requests n m) :
    ∃ call, m.control.removing = some call ∧ m.control.asks = some call := by
  have hdue := h.due
  have hleft : 0 < m.control.left := by omega
  obtain ⟨call, hcall⟩ := Control.removing_of_left hleft
  exact ⟨call, hcall, Control.asks_of_removing hcall hleft⟩

lemma Balance.same (h : Balance strict n m) (hcontrol : m'.control = m.control)
    (hjoin : m'.isJoin = m.isJoin) (hstopped : m'.stoppedThreads = m.stoppedThreads)
    (howing : owing n' = owing n) (hrequests : requests n' m' = requests n m)
    (hout : n' .departing + n' .removed = n .departing + n .removed)
    (hpoison : m'.poison + n' .poisoned = m.poison + n .poisoned)
    (htrying : m.control.moded ≠ some .stop → n' .tryStop = 0 ∧ n' .undo = 0)
    (hstale : m.control.moded ≠ some .stop → m.isJoin = false → n' .checkJoin = 0) :
    Balance strict n' m' := by
  obtain ⟨hdue, hnonneg, hgoal, hplan, hpoison', _, _, hmode, hcalls⟩ := h
  rw [← hcontrol] at hdue hgoal hplan hpoison' hmode hcalls htrying hstale
  rw [← hrequests] at hdue hnonneg hgoal hpoison'
  rw [← howing] at hgoal hplan hpoison'
  rw [← hjoin] at hstale hmode
  refine ⟨?_, hnonneg, hgoal, hplan, fun hstop hpos => ?_, htrying, hstale, hmode, hcalls⟩
  · rw [hstopped]
    omega
  · have := hpoison' hstop hpos
    omega

lemma Balance.frame (h : Balance strict n m) (hcontrol : m'.control = m.control)
    (hjoin : m'.isJoin = m.isJoin) (hstopped : m'.stoppedThreads = m.stoppedThreads)
    (hqueue : m'.queue = m.queue) (hstop : m'.threadsToStop = m.threadsToStop) : Balance strict n m' := by
  have hpoison : m'.poison = m.poison := by rw [Mem.poison, hqueue, Mem.poison]
  have hrequests : requests n m' = requests n m := by rw [requests, hstop, requests]
  exact h.same hcontrol hjoin hstopped rfl hrequests rfl (by rw [hpoison]) h.trying h.stale

lemma Balance.depart (h : Balance strict n m) (hcontrol : m'.control = m.control)
    (hjoin : m'.isJoin = m.isJoin) (hstopped : m'.stoppedThreads = m.stoppedThreads)
    (howing : owing n' + 1 = owing n) (hrequests : requests n' m' + 1 = requests n m)
    (hpos : 0 < requests n m) (hout : n' .departing + n' .removed = n .departing + n .removed + 1)
    (hpoison : m.control.removing ≠ some .stop →
      m'.poison + n' .poisoned + 1 = m.poison + n .poisoned)
    (htrying : n' .tryStop ≤ n .tryStop ∧ n' .undo ≤ n .undo)
    (hstale : n' .checkJoin ≤ n .checkJoin) : Balance strict n' m' := by
  obtain ⟨call, hcall, _⟩ := h.removing hpos
  obtain ⟨hdue, _, hgoal, _, hpoison', htrying', hstale', hmode, hcalls⟩ := h
  rw [← hcontrol] at hcall hdue hgoal hpoison hpoison' htrying' hstale' hmode hcalls
  rw [← hjoin] at hstale' hmode
  refine ⟨?_, by omega, fun call' hcall' => ?_, Control.plan_of_removing hcall _, fun hstop _ => ?_,
    fun hstop => ?_, fun hstop hfalse => ?_, hmode, hcalls⟩
  · rw [hstopped]
    omega
  · have := hgoal call' hcall'
    omega
  · have := hpoison' hstop (.inr (by omega))
    have := hpoison hstop
    omega
  · have := htrying' hstop
    omega
  · have := hstale' hstop hfalse
    omega

end Balance

section Workers

variable {pick : List CPUTask → Nat → Bool} {ch : Choice} {id : Nat} {strict : Bool} {n : Kind → Nat}
  {m m' : Mem} {p p' : Worker}

lemma take_spec (h : take pick ch id m = some (m', p')) :
    ∃ task, m.queue[ch.place]? = some task ∧ pick m.queue ch.place = true ∧
      m' = { m with queue := m.queue.eraseIdx ch.place, taken := m.taken ++ [(id, task)] } ∧
      p' = match task with
        | .poison => .poisoned
        | .task t expiration => .run t expiration := by
  rw [take] at h
  cases htask : m.queue[ch.place]? with
  | none =>
    rw [htask] at h
    cases h
  | some task =>
    simp only [htask] at h
    split at h
    · rename_i hpick
      refine ⟨task, rfl, hpick, ?_⟩
      cases task with
      | poison | task t expiration =>
        cases h
        exact ⟨rfl, rfl⟩
    · cases h

lemma count_eraseIdx {task : CPUTask} {l : List CPUTask} {i : Nat} (h : l[i]? = some task) :
    (l.eraseIdx i).count .poison + (if task = .poison then 1 else 0) = l.count .poison := by
  obtain ⟨hi, rfl⟩ := List.getElem?_eq_some_iff.mp h
  have := (getElem_cons_eraseIdx_perm hi).count_eq .poison
  rw [count_cons] at this
  rw [← this]
  simp only [beq_iff_eq]

lemma Balance.goOn (h : Balance strict (more n p) m) (hp : p.is .busy = true) (hp' : p'.is .busy = true) :
    Balance strict (more n p') m := by
  have heq : more n p' = more n p := by
    funext k
    cases p <;> cases hp <;> cases p' <;> cases hp' <;> cases k <;> rfl
  rw [heq]
  exact h

lemma Balance.take (h : Balance strict (more n .take) m) (hs : take pick ch id m = some (m', p')) :
    Balance strict (more n p') m' ∧ p' ≠ .failed := by
  obtain ⟨task, htask, -, rfl, rfl⟩ := take_spec hs
  have hcount := count_eraseIdx htask
  have htrying := h.trying
  have hstale := h.stale
  cases task with
  | poison =>
    refine ⟨h.same rfl rfl rfl ?_ rfl rfl ?_ htrying hstale, by simp⟩
    · simp only [owing, more, plus, is, toNat_true, toNat_false]
      omega
    · simp only [Mem.poison, more, plus, is, toNat_true, toNat_false]
      rw [if_pos rfl] at hcount
      omega
  | task t expiration =>
    refine ⟨h.same rfl rfl rfl rfl rfl rfl ?_ htrying hstale, by simp⟩
    simp only [Mem.poison, more, plus, is, toNat_false]
    rw [if_neg (by simp)] at hcount
    omega

lemma Balance.check (h : Balance strict (more n .poisoned) m) : 0 < m.threadsToStop := by
  have howing : 0 < owing (more n .poisoned) := by
    simp only [owing, more, plus, is, toNat_true]
    omega
  by_cases hstop : m.control.removing = some .stop
  · have hgoal := h.goal .stop hstop
    simp only [owing, requests, Call.target, more, plus, is, toNat_true,
      toNat_false] at hgoal
    omega
  have hpoison := h.poison hstop (.inr howing)
  by_cases hmoded : m.control.moded = some .stop
  · -- `stop` has stored `isJoin_` and not yet asked for anything
    have hdue := h.due
    have hleft : m.control.left = 0 := by
      cases hc : m.control <;> rw [hc] at hstop hmoded <;> first | rfl | exact absurd hmoded hstop
    have hone : 1 ≤ more n .poisoned .poisoned := Nat.le_add_left ..
    omega
  · have htrying := h.trying hmoded
    simp only [requests, more, plus, is, toNat_true, toNat_false] at hpoison htrying
    omega

lemma Balance.poisoned (h : Balance strict (more n .poisoned) m) :
    Balance strict (more n .stopping) { m with threadsToStop := m.threadsToStop - 1 } := by
  have hcheck := h.check
  refine h.depart rfl rfl rfl ?_ ?_ ?_ ?_ (fun _ => ?_) ⟨le_rfl, le_rfl⟩ le_rfl
  · simp only [owing, more, plus, is, toNat_true, toNat_false]
    omega
  · simp only [requests, more, plus, is, toNat_false]
    omega
  · simp only [requests, more, plus, is, toNat_false]
    omega
  · simp only [more, plus, is, toNat_true, toNat_false]
    omega
  · simp only [Mem.poison, more, plus, is, toNat_true, toNat_false]
    omega

lemma Balance.checkStop (h : Balance strict (more n .checkStop) m) (hpos : 0 < m.threadsToStop) :
    Balance strict (more n .checkJoin) m := by
  have hstale : m.control.moded ≠ some .stop → m.isJoin = true := by
    intro hmoded
    obtain ⟨call, hcall, hasks⟩ := h.removing (by
      simp only [requests, more, plus, is, toNat_false]
      omega)
    have hmode := h.mode call hasks
    cases hjoin : call.isJoin with
    | true => exact hmode.trans hjoin
    | false =>
      rw [Control.moded_of_removing hcall, Call.eq_stop hjoin] at hmoded
      exact absurd rfl hmoded
  refine h.same rfl rfl rfl ?_ rfl rfl rfl h.trying fun hmoded hjoin => ?_
  · simp only [owing, more, plus, is, toNat_true, toNat_false]
    omega
  · rw [hstale hmoded] at hjoin
    cases hjoin

lemma Balance.checkJoin (h : Balance strict (more n .checkJoin) m) (hjoin : m.isJoin = false) :
    Balance strict (more n .tryStop) m := by
  have hmoded : m.control.moded = some .stop := by
    by_contra hmoded
    have := h.stale hmoded hjoin
    simp only [more, plus, is, toNat_true] at this
    omega
  refine h.same rfl rfl rfl ?_ rfl rfl rfl ?_ ?_
  · simp only [owing, more, plus, is, toNat_true, toNat_false]
    omega
  · exact fun h => absurd hmoded h
  · exact fun h => absurd hmoded h

lemma Balance.leaveIt (h : Balance strict (more n .checkJoin) m) : Balance strict (more n .take) m := by
  refine h.same rfl rfl rfl ?_ rfl rfl rfl h.trying fun hmoded hjoin => ?_
  · simp only [owing, more, plus, is, toNat_true, toNat_false]
    omega
  · have := h.stale hmoded hjoin
    simp only [more, plus, is, toNat_true] at this
    omega

lemma Balance.moded_of_tryStop (h : Balance strict (more n .tryStop) m) :
    m.control.moded = some .stop := by
  by_contra hmoded
  have := (h.trying hmoded).1
  simp only [more, plus, is, toNat_true] at this
  omega

lemma Balance.tryStop (h : Balance strict (more n .tryStop) m) (hpos : 0 ≤ m.threadsToStop - 1) :
    Balance strict (more n .stopping) { m with threadsToStop := m.threadsToStop - 1 } := by
  have hrequests : 0 < requests (more n .tryStop) m := by
    simp only [requests, more, plus, is, toNat_false]
    omega
  have hstop : m.control.removing = some .stop := by
    obtain ⟨call, hcall, _⟩ := h.removing hrequests
    rw [hcall, ← Control.moded_of_removing hcall]
    exact h.moded_of_tryStop
  refine h.depart rfl rfl rfl ?_ ?_ hrequests ?_ (fun hne => absurd hstop hne) ⟨?_, le_rfl⟩ le_rfl
  · simp only [owing, more, plus, is, toNat_true, toNat_false]
    omega
  · simp only [requests, more, plus, is, toNat_false]
    omega
  · simp only [more, plus, is, toNat_true, toNat_false]
    omega
  · simp only [more, plus, is, toNat_true, toNat_false]
    omega

lemma Balance.tooSoon (h : Balance strict (more n .tryStop) m) :
    Balance strict (more n .undo) { m with threadsToStop := m.threadsToStop - 1 } := by
  have hmoded := h.moded_of_tryStop
  refine h.same rfl rfl rfl ?_ ?_ rfl rfl (fun hne => absurd hmoded hne) h.stale
  · simp only [owing, more, plus, is, toNat_true, toNat_false]
    omega
  · simp only [requests, more, plus, is, toNat_true, toNat_false]
    omega

lemma Balance.undo (h : Balance strict (more n .undo) m) :
    Balance strict (more n .take) { m with threadsToStop := m.threadsToStop + 1 } := by
  refine h.same rfl rfl rfl ?_ ?_ rfl rfl (fun hmoded => ?_) h.stale
  · simp only [owing, more, plus, is, toNat_true, toNat_false]
    omega
  · simp only [requests, more, plus, is, toNat_true, toNat_false]
    omega
  · have := h.trying hmoded
    simp only [more, plus, is, toNat_true, toNat_false] at this ⊢
    omega

lemma Balance.locked (h : Balance strict (more n .locked) m) :
    Balance strict (more n .removed) { m with threadList := m.threadList.erase id } := by
  refine h.same rfl rfl rfl rfl rfl ?_ rfl h.trying h.stale
  simp only [more, plus, is, toNat_true, toNat_false]
  omega

lemma Balance.removed (h : Balance strict (more n .removed) m) :
    Balance strict (more n .added) { m with stoppedThreads := m.stoppedThreads ++ [id] } := by
  have hdue := h.due
  refine ⟨?_, h.nonneg, h.goal, h.plan, h.poison, h.trying, h.stale, h.mode, h.calls⟩
  rw [length_append]
  simp only [requests, more, plus, is, toNat_true, toNat_false,
    length_singleton] at hdue ⊢
  omega

lemma workerStep_balance (h : Balance strict (more n p) m) :
    Leads (fun m' p' => Balance strict (more n p') m' ∧ p' ≠ .failed) (workerStep pick ch id m p) := by
  cases p with
  | unborn | failed | done => trivial
  | starting => exact ⟨h.goOn rfl rfl, nofun⟩
  | take => exact .intro fun _ _ hs => h.take hs
  | poisoned =>
    have hcheck := h.check
    simp only [workerStep, gt_iff_lt, if_pos hcheck]
    exact ⟨h.poisoned, nofun⟩
  | run t expiration => exact ⟨(h.goOn rfl rfl).frame rfl rfl rfl rfl rfl, nofun⟩
  | checkStop =>
    dsimp only [workerStep, Leads]
    split
    · next hpos => exact ⟨h.checkStop hpos, nofun⟩
    · exact ⟨h.goOn rfl rfl, nofun⟩
  | checkJoin =>
    dsimp only [workerStep, Leads]
    split
    · next hjoin => exact ⟨h.checkJoin (by simpa using hjoin), nofun⟩
    · exact ⟨h.leaveIt, nofun⟩
  | tryStop =>
    dsimp only [workerStep, Leads]
    split
    · next hpos => exact ⟨h.tryStop hpos, nofun⟩
    · exact ⟨h.tooSoon, nofun⟩
  | undo => exact ⟨h.undo, nofun⟩
  | stopping =>
    have heq : more n .locked = more n .stopping := by
      funext k
      cases k <;> rfl
    rw [workerStep]
    split
    · exact ⟨heq ▸ h.frame rfl rfl rfl rfl rfl, nofun⟩
    · trivial
  | locked => exact ⟨h.locked, nofun⟩
  | removed => exact ⟨h.removed, nofun⟩
  | added =>
    have heq : more n .done = more n .added := by
      funext k
      cases k <;> rfl
    exact ⟨heq ▸ h.frame rfl rfl rfl rfl rfl, nofun⟩

end Workers

section Calls

variable {strict : Bool} {n : Kind → Nat} {m m' : Mem}

lemma Balance.control (h : Balance strict n m) (hjoin : m'.isJoin = m.isJoin)
    (hstopped : m'.stoppedThreads = m.stoppedThreads) (hqueue : m'.queue = m.queue)
    (hstop : m'.threadsToStop = m.threadsToStop)
    (hremoving : m'.control.removing = m.control.removing)
    (hleft : m'.control.left = m.control.left)
    (hpoisonLeft : m'.control.poisonLeft = m.control.poisonLeft)
    (hmoded : m'.control.moded = m.control.moded) (hasks : m'.control.asks = m.control.asks)
    (hplan : m'.control.Plan (owing n)) (hcalls : strict = true → m'.control.call ≠ some .stop) :
    Balance strict n m' := by
  have hpoison : m'.poison = m.poison := by rw [Mem.poison, hqueue, Mem.poison]
  have hrequests : requests n m' = requests n m := by rw [requests, hstop, requests]
  obtain ⟨hdue, hnonneg, hgoal, _, hpoison', htrying, hstale, hmode, _⟩ := h
  rw [← hrequests] at hdue hnonneg hgoal hpoison'
  rw [← hremoving] at hgoal hpoison'
  rw [← hmoded] at htrying hstale
  rw [← hjoin] at hstale hmode
  rw [← hstopped, ← hleft] at hdue
  rw [← hpoison, ← hpoisonLeft] at hpoison'
  rw [← hasks] at hmode
  exact ⟨hdue, hnonneg, hgoal, hplan, hpoison', htrying, hstale, hmode, hcalls⟩

structure Quiet (strict : Bool) (n : Kind → Nat) (m : Mem) : Prop where
  requests : requests n m = 0
  out : n .departing = 0 ∧ n .removed = 0 ∧ m.stoppedThreads = []
  poison : strict = true ∨ 0 < owing n → m.poison = 0 ∧ n .poisoned = 0
  trying : n .tryStop = 0 ∧ n .undo = 0
  stale : m.isJoin = false → n .checkJoin = 0

lemma Balance.quiet (h : Balance strict n m) (hleft : m.control.left = 0)
    (hmoded : m.control.moded ≠ some .stop) (hpoisonLeft : m.control.poisonLeft = 0) : Quiet strict n m := by
  have hdue := h.due
  have hnonneg := h.nonneg
  have hremoving : m.control.removing ≠ some .stop :=
    fun hstop => hmoded (Control.moded_of_removing hstop)
  refine ⟨by omega, ⟨by omega, by omega, eq_nil_of_length_eq_zero (by omega)⟩, fun hpos => ?_,
    h.trying hmoded, h.stale hmoded⟩
  have := h.poison hremoving hpos
  omega

lemma Quiet.balance (h : Quiet strict n m) (hleft : m.control.left = 0)
    (hgoal : ∀ call, m.control.removing = some call → owing n = call.target)
    (hplan : m.control.Plan (owing n)) (hpoisonLeft : m.control.poisonLeft = 0)
    (hasks : m.control.asks = none) (hcalls : strict = true → m.control.call ≠ some .stop) :
    Balance strict n m := by
  obtain ⟨hdeparting, hremoved, hstopped⟩ := h.out
  refine ⟨?_, ?_, fun call hcall => ?_, hplan, fun _ hpos => ?_, fun _ => h.trying, fun _ => h.stale,
    fun call hcall => ?_, hcalls⟩
  · rw [h.requests, hdeparting, hremoved, hstopped, hleft]
    rfl
  · rw [h.requests]
  · rw [h.requests, hgoal call hcall, zero_add]
  · obtain ⟨hpoison, hpoisoned⟩ := h.poison hpos
    rw [h.requests, hpoison, hpoisoned, hpoisonLeft]
    rfl
  · rw [hasks] at hcall
    cases hcall

lemma Quiet.frame (h : Quiet strict n m) (hjoin : m'.isJoin = m.isJoin)
    (hstopped : m'.stoppedThreads = m.stoppedThreads) (hqueue : m'.queue = m.queue)
    (hstop : m'.threadsToStop = m.threadsToStop) : Quiet strict n m' := by
  obtain ⟨hrequests, hout, hpoison, htrying, hstale⟩ := h
  refine ⟨?_, ?_, ?_, htrying, ?_⟩
  · rw [CPUThreadPoolExecutor.requests, hstop]
    exact hrequests
  · rw [hstopped]
    exact hout
  · rw [Mem.poison, hqueue]
    exact hpoison
  · rw [hjoin]
    exact hstale

lemma Quiet.spawn (h : Quiet strict n m) (hpoison : strict = true ∨ m.poison = 0) :
    Quiet strict (more n .starting) m := by
  have hboth : m.poison = 0 ∧ n .poisoned = 0 := by
    rcases Nat.eq_zero_or_pos (owing n) with hzero | hpos
    · rcases hpoison with hstrict | hpoison
      · exact h.poison (.inl hstrict)
      · rw [owing] at hzero
        exact ⟨hpoison, by omega⟩
    · exact h.poison (.inr hpos)
  exact ⟨h.requests, h.out, fun _ => hboth, h.trying, h.stale⟩

variable {call : Call}

lemma Balance.removeThreads {k : Nat} (h : Balance strict n m)
    (hc : m.control = .removeThreads call k) :
    Balance strict n { m with isJoin := call.isJoin, control := .stopThreads call k } := by
  have hq := h.quiet (by rw [hc]; rfl) (by rw [hc]; nofun) (by rw [hc]; rfl)
  have hplan := h.plan
  rw [hc] at hplan
  obtain ⟨hdeparting, hremoved, hstopped⟩ := hq.out
  have hcalls := h.calls
  rw [hc] at hcalls
  refine ⟨?_, h.nonneg, nofun, hplan, fun _ hpos => ?_, fun _ => hq.trying, fun hmoded hjoin => ?_,
    fun call' hcall => ?_, hcalls⟩
  · show requests n m + _ + _ + _ = _
    rw [hq.requests, hdeparting, hremoved, hstopped]
    rfl
  · obtain ⟨hpoison, hpoisoned⟩ := hq.poison hpos
    show requests n m = m.poison + _ + _
    rw [hq.requests, hpoison, hpoisoned]
    rfl
  · exact absurd (congrArg some (Call.eq_stop hjoin)) hmoded
  · cases hcall
    rfl

lemma Balance.stopThreads {k : Nat} (h : Balance strict n m)
    (hc : m.control = .stopThreads call k) :
    Balance strict n { m with threadsToStop := m.threadsToStop + k, control := .addPoison call k k } := by
  obtain ⟨hdue, hnonneg, _, hplan, hpoison, htrying, hstale, hmode, hcalls⟩ := h
  rw [hc] at hdue hplan hpoison htrying hstale hmode hcalls
  change _ = ((0 : Nat) : Int) at hdue
  change owing n = k + call.target at hplan
  have hrequests : requests n { m with threadsToStop := m.threadsToStop + k, control := .addPoison call k k }
      = requests n m + k := by
    simp only [requests]
    omega
  refine ⟨?_, ?_, fun call' hcall => ?_, trivial, fun _ hpos => ?_, htrying, hstale,
    fun call' hcall => ?_, hcalls⟩
  · rw [hrequests]
    show _ = (k : Int)
    dsimp only
    omega
  · omega
  · cases hcall
    omega
  · have := hpoison nofun hpos
    show _ = (m.poison : Int) + n .poisoned + k
    omega
  · exact hmode call' (Control.moded_of_asks hcall)

lemma Balance.addPoison {k i : Nat} (h : Balance strict n m)
    (hc : m.control = .addPoison call k (i + 1)) :
    Balance strict n { m.put .poison with control := .addPoison call k i } := by
  obtain ⟨hdue, hnonneg, hgoal, _, hpoison, htrying, hstale, hmode, hcalls⟩ := h
  rw [hc] at hdue hgoal hpoison htrying hstale hmode hcalls
  refine ⟨hdue, hnonneg, hgoal, trivial, fun hstop hpos => ?_, htrying, hstale, hmode, hcalls⟩
  have := hpoison hstop hpos
  have hcount : (m.queue ++ [CPUTask.poison]).count .poison = m.queue.count .poison + 1 := by
    rw [count_append]
    rfl
  change requests n m = ((m.queue ++ [CPUTask.poison]).count .poison : Nat) + n .poisoned + i
  change requests n m = m.queue.count .poison + n .poisoned + (i + 1 : Nat) at this
  omega

lemma Balance.joinStopped {k thread : Nat} {rest : List Nat} (h : Balance strict n m)
    (hc : m.control = .joinStopped call (k + 1)) (hrest : m.stoppedThreads = thread :: rest) :
    Balance strict n { m with stoppedThreads := rest, control := .joinThread call thread k } := by
  obtain ⟨hdue, hnonneg, hgoal, _, hpoison, htrying, hstale, hmode, hcalls⟩ := h
  rw [hc] at hdue hgoal hpoison htrying hstale hmode hcalls
  refine ⟨?_, hnonneg, hgoal, trivial, hpoison, htrying, hstale, fun call' hcall => ?_, hcalls⟩
  · rw [hrest, length_cons] at hdue
    change _ = ((k + 1 : Nat) : Int) at hdue
    change requests n m + n .departing + n .removed + rest.length = (k : Int)
    omega
  · cases Control.moded_of_asks hcall
    exact hmode call (Control.asks_of_removing rfl k.succ_pos)

lemma Balance.returns (h : Balance strict n m) (hc : m.control = .joinStopped call 0) :
    Balance strict n { m with control := .idle } := by
  have hgoal := h.goal call (by rw [hc]; rfl)
  have hdue := h.due
  have hnonneg := h.nonneg
  rw [hc] at hdue
  change _ = ((0 : Nat) : Int) at hdue
  have hquiet : Quiet strict n m := by
    cases hjoin : call.isJoin with
    | true =>
      refine h.quiet (by rw [hc]; rfl) (fun hmoded => ?_) (by rw [hc]; rfl)
      rw [hc] at hmoded
      cases hmoded
      cases hjoin
    | false =>
      have hzero : owing n = 0 := by
        rw [Call.eq_stop hjoin] at hgoal
        change (owing n : Int) = requests n m + ((0 : Nat) : Int) at hgoal
        omega
      have hall := hzero
      rw [owing] at hall
      refine ⟨by omega, ⟨by omega, by omega, eq_nil_of_length_eq_zero (by omega)⟩,
        fun hpos => ?_, by omega, fun _ => by omega⟩
      rcases hpos with hstrict | hpos
      · have hcalls := h.calls hstrict
        rw [hc, Call.eq_stop hjoin] at hcalls
        exact absurd rfl hcalls
      · omega
  have hidle : Quiet strict n { m with control := .idle } := hquiet.frame rfl rfl rfl rfl
  exact hidle.balance rfl (fun _ h => nomatch h) trivial rfl rfl nofun

end Calls

end Acc.Concurrency.CPUThreadPoolExecutor
