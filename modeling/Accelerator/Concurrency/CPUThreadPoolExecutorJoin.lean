import Accelerator.Concurrency.CPUThreadPoolExecutorRuns

namespace Acc.Concurrency.CPUThreadPoolExecutor

open Function List

open Interleaving (Leads Every)

def CPUTask.number : CPUTask → Option Nat
  | .poison => none
  | .task id _ => some id

def Mem.takenTasks (m : Mem) : List (Nat × Nat) :=
  m.taken.filterMap fun t => t.2.number.map fun id => (t.1, id)

def Mem.finishedTasks (m : Mem) : List (Nat × Nat) := m.finished.map fun f => (f.1, f.2.1)

structure Joined (tasks : Nat) (s : State) : Prop where
  once : ∀ t < tasks, ∃ worker expired,
    s.mem.takenTasks.filter (fun f => f.2 = t) = [(worker, t)] ∧
      s.mem.finished.filter (fun f => f.2.1 = t) = [(worker, t, expired)]
  terminated : ∀ worker < s.mem.nextId, s.pc worker = .done

def Worker.runs (t : Nat) : Worker → Bool
  | .run id _ => decide (id = t)
  | _ => false

structure History (s : State) : Prop where
  order : s.mem.enqueued = s.mem.taken.map Prod.snd ++ s.mem.queue
  names : s.mem.enqueued.filterMap CPUTask.number = List.range s.mem.tasks
  runs : ∀ w t, s.mem.takenTasks.count (w, t)
    = s.mem.finishedTasks.count (w, t) + ((s.pc w).runs t).toNat
  added : ∀ w, s.pc w = .added →
    w ∈ s.mem.stoppedThreads ∨ ∃ call k, s.mem.control = .joinThread call w k

lemma History.start (isJoin : Bool) : History (start isJoin) :=
  ⟨rfl, rfl, fun _ _ => rfl, nofun⟩

section Workers

variable {ch : Choice} {id : Nat} {m m' : Mem} {p p' : Worker}

inductive Trace (id : Nat) (m : Mem) : Worker → Mem → Worker → Prop
  | take {task : CPUTask} {rest : List CPUTask} {m' : Mem} {p' : Worker}
      (hqueue : m.queue = task :: rest) (hrest : m'.queue = rest)
      (htaken : m'.taken = m.taken ++ [(id, task)]) (hfinished : m'.finished = m.finished)
      (hstopped : m'.stoppedThreads = m.stoppedThreads)
      (hp' : ∀ t, p'.runs t = decide (task.number = some t)) (hadded : p' ≠ .added) :
      Trace id m .take m' p'
  | run {t expiration : Nat} {expired : Bool} {m' : Mem} (hqueue : m'.queue = m.queue)
      (htaken : m'.taken = m.taken) (hfinished : m'.finished = m.finished ++ [(id, t, expired)])
      (hstopped : m'.stoppedThreads = m.stoppedThreads) :
      Trace id m (.run t expiration) m' .checkStop
  | stopped {m' : Mem} (hqueue : m'.queue = m.queue) (htaken : m'.taken = m.taken)
      (hfinished : m'.finished = m.finished)
      (hstopped : m'.stoppedThreads = m.stoppedThreads ++ [id]) : Trace id m .removed m' .added
  | other {p : Worker} {m' : Mem} {p' : Worker} (hqueue : m'.queue = m.queue)
      (htaken : m'.taken = m.taken) (hfinished : m'.finished = m.finished)
      (hstopped : m'.stoppedThreads = m.stoppedThreads) (hp : ∀ t, p.runs t = false)
      (hp' : ∀ t, p'.runs t = false) (hadded : p' ≠ .added) : Trace id m p m' p'

def Mem.same (m m' : Mem) : Prop :=
  m'.enqueued = m.enqueued ∧ m'.tasks = m.tasks ∧ m'.control = m.control ∧ m'.nextId = m.nextId

lemma trace_of_step :
    Leads (fun m' p' => Trace id m p m' p' ∧ m.same m') (workerStep fifo ch id m p) := by
  have same : ∀ {p p' : Worker} {m' : Mem}, m'.queue = m.queue → m'.taken = m.taken →
      m'.finished = m.finished → m'.stoppedThreads = m.stoppedThreads → (∀ t, p.runs t = false) →
      (∀ t, p'.runs t = false) → p' ≠ .added → m.same m' → Trace id m p m' p' ∧ m.same m' :=
    fun hq ht hf hst hp hp' ha hsame => ⟨.other hq ht hf hst hp hp' ha, hsame⟩
  cases p with
  | unborn | failed | done => trivial
  | take =>
    refine .intro fun m' p' hs => ?_
    obtain ⟨task, htask, hpick, rfl, rfl⟩ := take_spec hs
    have hplace : ch.place = 0 := by simpa [fifo] using hpick
    obtain ⟨rest, hqueue⟩ : ∃ rest, m.queue = task :: rest := by
      rw [hplace, ← head?_eq_getElem?, head?_eq_some_iff] at htask
      exact htask
    refine ⟨.take hqueue ?_ rfl rfl rfl ?_ ?_, rfl, rfl, rfl, rfl⟩
    · show m.queue.eraseIdx ch.place = rest
      rw [hplace, hqueue]
      rfl
    · intro t
      cases task with
      | poison => rfl
      | task t' expiration => simp [Worker.runs, CPUTask.number]
    · cases task <;> simp
  | run => exact ⟨.run rfl rfl rfl rfl, rfl, rfl, rfl, rfl⟩
  | removed => exact ⟨.stopped rfl rfl rfl rfl, rfl, rfl, rfl, rfl⟩
  | stopping =>
    rw [workerStep]
    split
    · exact same rfl rfl rfl rfl (fun _ => rfl) (fun _ => rfl) (by simp) ⟨rfl, rfl, rfl, rfl⟩
    · trivial
  | poisoned | checkStop | checkJoin | tryStop =>
    refine same rfl rfl rfl rfl (fun _ => rfl) (fun t => ?_) ?_ ⟨rfl, rfl, rfl, rfl⟩
    · split <;> rfl
    · split <;> simp
  | _ => exact same rfl rfl rfl rfl (fun _ => rfl) (fun _ => rfl) (by simp) ⟨rfl, rfl, rfl, rfl⟩

lemma takenTasks_append {task : CPUTask} (htaken : m'.taken = m.taken ++ [(id, task)]) (w t : Nat) :
    m'.takenTasks.count (w, t)
      = m.takenTasks.count (w, t) + if id = w ∧ task.number = some t then 1 else 0 := by
  rw [Mem.takenTasks, htaken, filterMap_append, count_append, Mem.takenTasks]
  congr 1
  cases task with
  | poison => simp [CPUTask.number]
  | task t' expiration =>
    show List.count (w, t) [(id, t')] = _
    simp [CPUTask.number, count_singleton, Prod.ext_iff]

lemma finishedTasks_append {t' : Nat} {expired : Bool}
    (hfinished : m'.finished = m.finished ++ [(id, t', expired)]) (w t : Nat) :
    m'.finishedTasks.count (w, t)
      = m.finishedTasks.count (w, t) + if id = w ∧ t' = t then 1 else 0 := by
  rw [Mem.finishedTasks, hfinished, map_append, count_append, Mem.finishedTasks]
  simp [count_singleton, Prod.ext_iff]

lemma Trace.runs (h : Trace id m p m' p') {t : Nat}
    (hruns : m.takenTasks.count (id, t) = m.finishedTasks.count (id, t) + (p.runs t).toNat) :
    m'.takenTasks.count (id, t) = m'.finishedTasks.count (id, t) + (p'.runs t).toNat := by
  cases h with
  | @take task _ _ _ _ _ htaken hfinished _ hp' =>
    have hsame : m'.finishedTasks = m.finishedTasks := by
      simp [Mem.finishedTasks, hfinished]
    rw [takenTasks_append htaken, hruns, hsame, hp']
    by_cases ht : task.number = some t <;> simp [ht, Worker.runs]
  | @run t' _ _ _ _ htaken hfinished =>
    have hsame : m'.takenTasks = m.takenTasks := by
      simp [Mem.takenTasks, htaken]
    rw [finishedTasks_append hfinished, hsame, hruns]
    by_cases ht : t' = t <;> simp [ht, Worker.runs]
  | stopped _ htaken hfinished =>
    rw [Mem.takenTasks, htaken, Mem.finishedTasks, hfinished]
    exact hruns
  | other _ htaken hfinished _ hp hp' =>
    rw [Mem.takenTasks, htaken, Mem.finishedTasks, hfinished, hp']
    rw [hp] at hruns
    exact hruns

lemma Trace.frame (h : Trace id m p m' p') {w t : Nat} (hw : w ≠ id) :
    m'.takenTasks.count (w, t) = m.takenTasks.count (w, t) ∧
      m'.finishedTasks.count (w, t) = m.finishedTasks.count (w, t) := by
  cases h with
  | take _ _ htaken hfinished =>
    rw [takenTasks_append htaken, if_neg fun h => hw h.1.symm, Mem.finishedTasks, hfinished]
    exact ⟨rfl, rfl⟩
  | run _ htaken hfinished =>
    rw [finishedTasks_append hfinished, if_neg fun h => hw h.1.symm, Mem.takenTasks, htaken]
    exact ⟨rfl, rfl⟩
  | stopped _ htaken hfinished | other _ htaken hfinished =>
    rw [Mem.takenTasks, htaken, Mem.finishedTasks, hfinished]
    exact ⟨rfl, rfl⟩

lemma Trace.order (h : Trace id m p m' p') :
    m'.taken.map Prod.snd ++ m'.queue = m.taken.map Prod.snd ++ m.queue := by
  cases h with
  | take hqueue hrest htaken => simp [hqueue, hrest, htaken]
  | run hqueue htaken | stopped hqueue htaken | other hqueue htaken => rw [hqueue, htaken]

lemma Trace.stoppedThreads (h : Trace id m p m' p') :
    m.stoppedThreads ⊆ m'.stoppedThreads ∧ (p' = .added → id ∈ m'.stoppedThreads) := by
  cases h with
  | take _ _ _ _ hstopped _ hadded | other _ _ _ hstopped _ _ hadded =>
    rw [hstopped]
    exact ⟨List.Subset.refl _, fun h => absurd h hadded⟩
  | run _ _ _ hstopped =>
    rw [hstopped]
    exact ⟨List.Subset.refl _, nofun⟩
  | stopped _ _ _ hstopped =>
    rw [hstopped]
    exact ⟨subset_append_left _ _, fun _ => mem_append_right _ (mem_singleton_self id)⟩

lemma History.worker {s : State} (h : History s)
    (hs : workerStep fifo ch id s.mem (s.pc id) = some (m', p')) :
    History ⟨m', update s.pc id p'⟩ := by
  obtain ⟨htrace, henqueued, htasks, hcontrol, -⟩ := trace_of_step.of_eq hs
  refine ⟨?_, ?_, fun w t => ?_, fun w hw => ?_⟩
  · show m'.enqueued = m'.taken.map Prod.snd ++ m'.queue
    rw [henqueued, htrace.order]
    exact h.order
  · show m'.enqueued.filterMap CPUTask.number = List.range m'.tasks
    rw [henqueued, htasks]
    exact h.names
  · show m'.takenTasks.count (w, t)
      = m'.finishedTasks.count (w, t) + ((update s.pc id p' w).runs t).toNat
    by_cases hwid : w = id
    · rw [hwid, update_self]
      exact htrace.runs (h.runs id t)
    · rw [update_of_ne hwid, (htrace.frame hwid).1, (htrace.frame hwid).2]
      exact h.runs w t
  show w ∈ m'.stoppedThreads ∨ ∃ call k, m'.control = .joinThread call w k
  replace hw : update s.pc id p' w = .added := hw
  by_cases hwid : w = id
  · rw [hwid, update_self] at hw
    exact .inl (hwid ▸ htrace.stoppedThreads.2 hw)
  · rw [update_of_ne hwid] at hw
    rw [hcontrol]
    exact (h.added w hw).imp_left fun hmem => htrace.stoppedThreads.1 hmem

end Workers

section Calls

variable {s s' : State}

lemma History.mem (h : History s) {m : Mem} {new : List CPUTask}
    (hqueue : m.queue = s.mem.queue ++ new) (henqueued : m.enqueued = s.mem.enqueued ++ new)
    (htaken : m.taken = s.mem.taken) (hfinished : m.finished = s.mem.finished)
    (hnames : (s.mem.enqueued ++ new).filterMap CPUTask.number = List.range m.tasks)
    (hadded : ∀ w, s.pc w = .added → w ∈ m.stoppedThreads ∨ ∃ call k, m.control = .joinThread call w k) :
    History ⟨m, s.pc⟩ := by
  refine ⟨?_, ?_, fun w t => ?_, hadded⟩
  · show m.enqueued = m.taken.map Prod.snd ++ m.queue
    rw [henqueued, htaken, hqueue, h.order, append_assoc]
  · show m.enqueued.filterMap CPUTask.number = List.range m.tasks
    rw [henqueued]
    exact hnames
  · show m.takenTasks.count (w, t) = m.finishedTasks.count (w, t) + ((s.pc w).runs t).toNat
    rw [Mem.takenTasks, htaken, Mem.finishedTasks, hfinished]
    exact h.runs w t

lemma History.recontrol (h : History s) {m : Mem} (hqueue : m.queue = s.mem.queue)
    (henqueued : m.enqueued = s.mem.enqueued) (htaken : m.taken = s.mem.taken)
    (hfinished : m.finished = s.mem.finished) (htasks : m.tasks = s.mem.tasks)
    (hstopped : m.stoppedThreads = s.mem.stoppedThreads)
    (hc : ∀ call w k, s.mem.control ≠ .joinThread call w k) : History ⟨m, s.pc⟩ := by
  refine h.mem (hqueue.trans (append_nil _).symm) (henqueued.trans (append_nil _).symm)
    htaken hfinished ?_ fun w hw => ?_
  · rw [htasks, append_nil]
    exact h.names
  · rw [hstopped]
    exact .inl ((h.added w hw).resolve_right fun ⟨call, k, hk⟩ => hc call w k hk)

lemma History.spawn (h : History s) (hfresh : s.pc s.mem.nextId = .unborn) {call : Call} {k : Nat}
    (hc : s.mem.control = .addThreads call (k + 1)) {m : Mem}
    (hm : m = { s.mem with threadList := m.threadList, nextId := m.nextId, control := m.control }) :
    History ⟨m, update s.pc s.mem.nextId .starting⟩ := by
  rw [hm]
  refine ⟨h.order, h.names, ?_, ?_⟩
  · refine (forall_update_iff s.pc fun w p => ∀ t, s.mem.takenTasks.count (w, t)
      = s.mem.finishedTasks.count (w, t) + (p.runs t).toNat).mpr ⟨fun t => ?_, fun w _ => h.runs w⟩
    have hruns := h.runs s.mem.nextId t
    rw [hfresh] at hruns
    exact hruns
  refine (forall_update_iff s.pc fun w p => p = .added → _).mpr ⟨nofun, fun w _ hw => ?_⟩
  refine .inl ((h.added w hw).resolve_right ?_)
  rw [hc]
  nofun

lemma History.control (h : History s) (hfresh : s.pc s.mem.nextId = .unborn) :
    Every History (controlStep s) := by
  dsimp only [controlStep]
  split
  · trivial
  · next hc =>
    split
    · exact h.recontrol rfl rfl rfl rfl rfl rfl (by rw [hc]; nofun)
    · trivial
  · next hc => exact h.recontrol rfl rfl rfl rfl rfl rfl (by rw [hc]; nofun)
  · next hc => exact h.spawn hfresh hc rfl
  · next hc => exact h.recontrol rfl rfl rfl rfl rfl rfl (by rw [hc]; nofun)
  · next hc =>
    split
    · exact h.recontrol rfl rfl rfl rfl rfl rfl (by rw [hc]; nofun)
    · trivial
  · next hc => exact h.recontrol rfl rfl rfl rfl rfl rfl (by rw [hc]; nofun)
  · next hc => exact h.recontrol rfl rfl rfl rfl rfl rfl (by rw [hc]; nofun)
  · next hc =>
    refine h.mem rfl rfl rfl rfl ?_ fun w hw => .inl ((h.added w hw).resolve_right ?_)
    · rw [filterMap_append, h.names]
      exact append_nil _
    · rw [hc]
      nofun
  · next hc => exact h.recontrol rfl rfl rfl rfl rfl rfl (by rw [hc]; nofun)
  · next hc => exact h.recontrol rfl rfl rfl rfl rfl rfl (by rw [hc]; nofun)
  · next call k hc =>
    split
    · trivial
    next thread rest hrest =>
    refine h.mem (append_nil _).symm (append_nil _).symm rfl rfl ?_ fun w hw => ?_
    · rw [append_nil]
      exact h.names
    have hstopped := (h.added w hw).resolve_right (by rw [hc]; nofun)
    rw [hrest, mem_cons] at hstopped
    cases hstopped with
    | inl hthread => exact .inr ⟨call, k, hthread ▸ rfl⟩
    | inr hmem => exact .inl hmem
  · next hc => exact h.recontrol rfl rfl rfl rfl rfl rfl (by rw [hc]; nofun)
  next hc =>
  split
  · next hdone =>
    refine h.mem (append_nil _).symm (append_nil _).symm rfl rfl ?_ fun w hw => ?_
    · rw [append_nil]
      exact h.names
    refine .inl ((h.added w hw).resolve_right fun ⟨_, _, hjoin⟩ => ?_)
    rw [hc] at hjoin
    cases hjoin
    rw [hdone] at hw
    cases hw
  · trivial

lemma History.step (h : History s) {e : Event} (hfresh : s.pc s.mem.nextId = .unborn)
    (hs : step fifo s e = some s') : History s' := by
  cases e with
  | add expiration =>
    cases hs
    refine h.mem rfl rfl rfl rfl ?_ h.added
    rw [filterMap_append, h.names]
    exact range_succ.symm
  | call call =>
    simp only [CPUThreadPoolExecutor.step] at hs
    split at hs
    · rename_i hc
      cases hs
      exact h.recontrol rfl rfl rfl rfl rfl rfl (by simp [hc])
    · cases hs
  | control => exact (h.control hfresh).of_eq hs
  | worker id ch =>
    obtain ⟨r, hr, rfl⟩ := Option.map_eq_some_iff.mp hs
    exact h.worker hr

end Calls

section Join

variable {s s' : State} {since : List CPUTask}

def Idle (s : State) : Prop := ∀ w, s.pc w = .unborn ∨ s.pc w = .done

def Progress (since : List CPUTask) (s : State) : Control → Prop
  | .acquire call => call = .join ∧ s.mem.threadList ≠ []
  | .locked call => call = .join ∧ s.mem.threadList ≠ []
  | .removeThreads call n => call = .join ∧ 0 < n
  | .stopThreads call n => call = .join ∧ 0 < n
  | .addPoison call n i => call = .join ∧ 0 < n ∧ (i = n ∨ .poison ∈ since)
  | .release call _ => call = .join ∧ .poison ∈ since
  | .joinStopped call _ => call = .join ∧ .poison ∈ since
  | .joinThread call _ _ => call = .join ∧ .poison ∈ since
  | .idle => .poison ∈ since ∧ Idle s
  | .addThreads _ _ => False
  | .startup _ => False

variable {strict : Bool}

lemma Inv.none_of_number (h : Inv strict s) {k : Kind} (hk : number s k = 0) (id : Nat) :
    (s.pc id).is k = false := by
  rw [← Bool.not_eq_true]
  intro hid
  have hpos : 0 < number s k := h.settled.tally_pos (is_unborn k) hid
  omega

lemma Inv.idle (h : Inv strict s) (hhistory : History s)
    (howing : owing (number s) = 0) (hquiet : Quiet strict (number s) s.mem)
    (hc : ∀ call w k, s.mem.control ≠ .joinThread call w k) : Idle s := by
  intro w
  have hkind : ∀ k, number s k = 0 → (s.pc w).is k = false := fun k hk => h.none_of_number hk w
  have hbusy := hkind .busy (by rw [owing] at howing; omega)
  have hpoisoned := hkind .poisoned (by rw [owing] at howing; omega)
  have hcheckJoin := hkind .checkJoin (by rw [owing] at howing; omega)
  have htryStop := hkind .tryStop hquiet.trying.1
  have hundo := hkind .undo hquiet.trying.2
  have hdeparting := hkind .departing hquiet.out.1
  have hremoved := hkind .removed hquiet.out.2.1
  have hfailed := h.passed w
  have hadded := hhistory.added w
  rw [hquiet.out.2.2] at hadded
  cases hp : s.pc w with
  | unborn => exact .inl rfl
  | done => exact .inr rfl
  | failed => exact absurd hp hfailed
  | added =>
    obtain ⟨call, k, hk⟩ := (hadded hp).resolve_left not_mem_nil
    exact absurd hk (hc call w k)
  | starting | take | run | checkStop => rw [hp] at hbusy; cases hbusy
  | poisoned => rw [hp] at hpoisoned; cases hpoisoned
  | checkJoin => rw [hp] at hcheckJoin; cases hcheckJoin
  | tryStop => rw [hp] at htryStop; cases htryStop
  | undo => rw [hp] at hundo; cases hundo
  | stopping | locked => rw [hp] at hdeparting; cases hdeparting
  | removed => rw [hp] at hremoved; cases hremoved

lemma Progress.worker {ch : Choice} {id : Nat} {m' : Mem} {p' : Worker} (hinv : Inv strict s)
    (h : Progress since s s.mem.control)
    (hs : workerStep fifo ch id s.mem (s.pc id) = some (m', p')) :
    Progress since ⟨m', update s.pc id p'⟩ m'.control := by
  obtain ⟨-, -, -, hcontrol, -⟩ := trace_of_step.of_eq hs
  have hpassed : p' ≠ .failed := by
    have : update s.pc id p' id ≠ .failed := (hinv.worker hs).passed id
    rwa [update_self] at this
  obtain ⟨-, hborn, -, hlisted⟩ := workerStep_listed.of_eq hs hpassed
  have hlist : s.mem.control.left = 0 → s.mem.control.moded ≠ some .stop →
      s.mem.control.poisonLeft = 0 → m'.threadList = s.mem.threadList := by
    intro hleft hmoded hpoisonLeft
    rcases hlisted with ⟨hlist, _⟩ | ⟨hlocked, _, _⟩
    · exact hlist
    · have hdeparting := hinv.none_of_number (hinv.balance.quiet hleft hmoded hpoisonLeft).out.1 id
      rw [hlocked] at hdeparting
      cases hdeparting
  rw [hcontrol]
  cases hc : s.mem.control with
  | acquire call | locked call =>
    rw [hc] at h hlist
    refine ⟨h.1, ?_⟩
    rw [hlist rfl nofun rfl]
    exact h.2
  | idle =>
    rw [hc] at h
    rcases h.2 id with hunborn | hdone
    · exact absurd hunborn hborn
    · rw [hdone] at hs
      cases hs
  | _ =>
    rw [hc] at h
    exact h

lemma Progress.control (hinv : Inv strict s) (hhistory : History s)
    (h : Progress since s s.mem.control) :
    Every (fun s' => ∃ new, s'.mem.enqueued = s.mem.enqueued ++ new ∧
      Progress (since ++ new) s' s'.mem.control) (controlStep s) := by
  have same : ∀ {s' : State}, s'.mem.enqueued = s.mem.enqueued → Progress since s' s'.mem.control →
      ∃ new, s'.mem.enqueued = s.mem.enqueued ++ new ∧ Progress (since ++ new) s' s'.mem.control :=
    fun he hp => ⟨[], he.trans (append_nil _).symm, (append_nil since).symm ▸ hp⟩
  dsimp only [controlStep]
  cases hc : s.mem.control with
  | idle => trivial
  | acquire call | joinThread =>
    rw [hc] at h
    dsimp only
    split
    · exact same rfl h
    · trivial
  | locked call =>
    rw [hc] at h
    obtain ⟨rfl, hthreads⟩ := h
    exact same rfl ⟨rfl, length_pos_iff.mpr hthreads⟩
  | addThreads | startup =>
    rw [hc] at h
    exact h.elim
  | removeThreads | release =>
    rw [hc] at h
    exact same rfl h
  | stopThreads =>
    rw [hc] at h
    exact same rfl ⟨h.1, h.2, .inl rfl⟩
  | addPoison call k i =>
    rw [hc] at h
    cases i with
    | succ i =>
      exact ⟨[.poison], rfl, h.1, h.2.1, .inr (mem_append_right _ (mem_singleton_self _))⟩
    | zero => exact same rfl ⟨h.1, h.2.2.resolve_left (Nat.ne_of_lt h.2.1)⟩
  | joinStopped call k =>
    rw [hc] at h
    cases k with
    | succ k =>
      dsimp only
      split
      · trivial
      · exact same rfl h
    | zero =>
      obtain ⟨rfl, hpoison⟩ := h
      have hquiet := hinv.balance.quiet (by rw [hc]; rfl) (by rw [hc]; nofun) (by rw [hc]; rfl)
      have hgoal := hinv.balance.goal .join (by rw [hc]; rfl)
      rw [hquiet.requests] at hgoal
      have howing : owing (number s) = 0 := Int.ofNat_inj.mp hgoal
      exact same rfl ⟨hpoison, hinv.idle hhistory howing hquiet (by rw [hc]; nofun)⟩

lemma Progress.append (new : List CPUTask) {c : Control} (h : Progress since s c) :
    Progress (since ++ new) s c := by
  have hleft : CPUTask.poison ∈ since → CPUTask.poison ∈ since ++ new := mem_append_left new
  cases c with
  | addPoison => exact ⟨h.1, h.2.1, h.2.2.imp_right hleft⟩
  | release | joinStopped | joinThread => exact ⟨h.1, hleft h.2⟩
  | idle => exact ⟨hleft h.1, h.2⟩
  | _ => exact h

structure Joining (before : List CPUTask) (s : State) : Prop where
  inv : Inv true s
  history : History s
  progress : ∃ since, s.mem.enqueued = before ++ since ∧ Progress since s s.mem.control

lemma Joining.step {before : List CPUTask} {e : Event} (h : Joining before s)
    (he : ∀ call, e ≠ .call call) (hs : step fifo s e = some s') : Joining before s' := by
  have hfresh := h.inv.fresh s.mem.nextId le_rfl
  refine ⟨h.inv.step (.inl rfl) (fun _ => he .stop) hs, h.history.step hfresh hs, ?_⟩
  obtain ⟨since, hsince, hprogress⟩ := h.progress
  cases e with
  | add expiration =>
    cases hs
    refine ⟨since ++ [.task s.mem.tasks expiration], ?_, hprogress.append _⟩
    show s.mem.enqueued ++ _ = _
    rw [hsince, append_assoc]
  | call call => exact absurd rfl (he call)
  | control =>
    obtain ⟨new, hnew, hprogress'⟩ := (hprogress.control h.inv h.history).of_eq hs
    exact ⟨since ++ new, by rw [hnew, hsince, append_assoc], hprogress'⟩
  | worker id ch =>
    obtain ⟨r, hr, rfl⟩ := Option.map_eq_some_iff.mp hs
    exact ⟨since, (trace_of_step.of_eq hr).2.1.trans hsince, hprogress.worker h.inv hr⟩

lemma append_of_not_mem {α : Type} {before since taken queue : List α} {a : α}
    (h : before ++ since = taken ++ queue) (hsince : a ∈ since) (hqueue : a ∉ queue) :
    ∃ rest, taken = before ++ rest := by
  rcases append_eq_append_iff.mp h with ⟨rest, htaken, -⟩ | ⟨rest, -, hrest⟩
  · exact ⟨rest, htaken⟩
  · rw [hrest] at hqueue
    exact absurd (mem_append_right rest hsince) hqueue

lemma map_takenTasks (m : Mem) :
    m.takenTasks.map Prod.snd = (m.taken.map Prod.snd).filterMap CPUTask.number := by
  rw [Mem.takenTasks, map_filterMap, filterMap_map]
  congr 1
  simp [Option.map_map, Function.comp_def]

lemma History.perm (h : History s) (hidle : Idle s) : s.mem.takenTasks.Perm s.mem.finishedTasks := by
  rw [perm_iff_count]
  rintro ⟨w, t⟩
  have hruns : (s.pc w).runs t = false := by
    cases hidle w with
    | inl hunborn => rw [hunborn]; rfl
    | inr hdone => rw [hdone]; rfl
  rw [h.runs w t, hruns]
  rfl

lemma History.once (h : History s) (hidle : Idle s) {t : Nat}
    (ht : t ∈ (s.mem.taken.map Prod.snd).filterMap CPUTask.number) : ∃ worker expired,
    s.mem.takenTasks.filter (fun f => f.2 = t) = [(worker, t)] ∧
      s.mem.finished.filter (fun f => f.2.1 = t) = [(worker, t, expired)] := by
  have hnodup : ((s.mem.taken.map Prod.snd).filterMap CPUTask.number).Nodup := by
    have hnames := h.names
    rw [h.order, filterMap_append] at hnames
    have hall := nodup_range (n := s.mem.tasks)
    rw [← hnames] at hall
    exact hall.of_append_left
  have hone : (s.mem.takenTasks.filter fun f => f.2 = t).map Prod.snd = [t] := by
    rw [← map_takenTasks] at ht hnodup
    have hfilter : (s.mem.takenTasks.filter fun f => f.2 = t).map Prod.snd
        = (s.mem.takenTasks.map Prod.snd).filter (fun a => decide (a = t)) := by
      rw [List.filter_map]
      rfl
    rw [hfilter, List.filter_eq, List.count_eq_one_of_mem hnodup ht]
    rfl
  obtain ⟨⟨w, t'⟩, htaken, ht'⟩ := List.map_eq_singleton_iff.mp hone
  replace ht' : t' = t := ht'
  rw [ht'] at htaken
  have hfinished : s.mem.finishedTasks.filter (fun f => f.2 = t) = [(w, t)] := by
    rw [← perm_singleton, ← htaken]
    exact ((h.perm hidle).filter _).symm
  rw [Mem.finishedTasks, List.filter_map, List.map_eq_singleton_iff] at hfinished
  obtain ⟨⟨w', t₁, expired⟩, hlist, heq⟩ := hfinished
  cases heq
  exact ⟨_, expired, htaken, hlist⟩

lemma Joining.joined {before : List CPUTask} {tasks : Nat} (h : Joining before s)
    (hbefore : before.filterMap CPUTask.number = List.range tasks) (hc : s.mem.control = .idle) :
    Joined tasks s := by
  obtain ⟨since, hsince, hprogress⟩ := h.progress
  rw [hc] at hprogress
  obtain ⟨hpoison, hidle⟩ := hprogress
  have hquiet := h.inv.balance.quiet (by rw [hc]; rfl) (by rw [hc]; nofun) (by rw [hc]; rfl)
  have hqueue : CPUTask.poison ∉ s.mem.queue := count_eq_zero.mp (hquiet.poison (.inl rfl)).1
  refine ⟨fun t ht => h.history.once hidle ?_, fun w hw => ?_⟩
  · obtain ⟨rest, htaken⟩ := append_of_not_mem (hsince.symm.trans h.history.order) hpoison hqueue
    rw [htaken, filterMap_append, hbefore]
    exact mem_append_left _ (mem_range.mpr ht)
  · exact (hidle w).resolve_left (h.inv.born w hw)

lemma history_of_runs {isJoin : Bool}
    (h : Runs fifo (fun _ e => e ≠ .call .stop) (start isJoin) s) : History s := by
  induction h with
  | refl => exact .start isJoin
  | tail hruns hstep ih =>
    obtain ⟨e, _, hs⟩ := hstep
    have hinv : Inv true _ := inv_of_runs (fun _ _ _ => .inl rfl) (fun _ _ he _ => he) hruns
    exact ih.step (hinv.fresh _ le_rfl) hs

end Join

theorem joined_of_runs {isJoin : Bool} {s s₁ s₂ : State}
    (hbefore : Runs fifo (fun _ e => e ≠ .call .stop) (start isJoin) s)
    (hthreads : s.mem.threadList ≠ []) (hcall : step fifo s (.call .join) = some s₁)
    (hafter : Runs fifo (fun _ e => ∀ call, e ≠ .call call) s₁ s₂)
    (hreturn : s₂.mem.control = .idle) : Joined s.mem.tasks s₂ := by
  have hinv : Inv true s := inv_of_runs (fun _ _ _ => .inl rfl) (fun _ _ he _ => he) hbefore
  have hhistory : History s := history_of_runs hbefore
  have hjoining : Joining s.mem.enqueued s₁ := by
    have hne : Event.call .join ≠ .call .stop := nofun
    refine ⟨hinv.step (.inl rfl) (fun _ => hne) hcall, hhistory.step (hinv.fresh _ le_rfl) hcall,
      [], ?_⟩
    simp only [step] at hcall
    split at hcall
    · cases hcall
      exact ⟨(append_nil _).symm, rfl, hthreads⟩
    · cases hcall
  have hjoining' : Joining s.mem.enqueued s₂ := by
    clear hreturn
    induction hafter with
    | refl => exact hjoining
    | tail _ hstep ih =>
      obtain ⟨e, he, hs⟩ := hstep
      exact ih.step he hs
  exact hjoining'.joined hhistory.names hreturn

def Event.isStop : Event → Bool
  | .call .stop => true
  | _ => false

def Event.isCall : Event → Bool
  | .call _ => true
  | _ => false

theorem joined_with_two_tasks : ∃ s s₁ s₂ : State, s.mem.tasks = 2 ∧
    step fifo s (.call .join) = some s₁ ∧ s₂.mem.finished = [(0, 0, false), (0, 1, true)] ∧
    Joined 2 s₂ := by
  have hplay : ((play fifo (fun _ e => !e.isStop) (oneThread 0 ++ [.add 0, .add 5])
      (start false)).bind fun s => (step fifo s (.call .join)).bind fun s₁ =>
        (play fifo (fun _ e => !e.isCall) (controls 7 ++ workers 0 5 ++ [.worker 0 ⟨0, 7⟩]
          ++ workers 0 8 ++ controls 3) s₁).map fun s₂ =>
            ((s.mem.tasks, s.mem.threadList), s₂.mem.finished, s₂.mem.control))
      = some ((2, [0]), [(0, 0, false), (0, 1, true)], .idle) := by
    decide
  obtain ⟨s, hbefore, hplay⟩ := Option.bind_eq_some_iff.mp hplay
  obtain ⟨s₁, hcall, hplay⟩ := Option.bind_eq_some_iff.mp hplay
  obtain ⟨s₂, hafter, hplay⟩ := Option.map_eq_some_iff.mp hplay
  simp only [Prod.mk.injEq] at hplay
  obtain ⟨⟨htasks, hlist⟩, hfinished, hidle⟩ := hplay
  have hjoined : Joined s.mem.tasks s₂ := by
    refine joined_of_runs ((runs_of_play hbefore).lift id ?_) ?_ hcall
      ((runs_of_play hafter).lift id ?_) hidle
    · rintro _ _ ⟨e, he, hs⟩
      exact ⟨e, fun h => (by rw [h] at he; cases he), hs⟩
    · rw [hlist]
      nofun
    · rintro _ _ ⟨e, he, hs⟩
      exact ⟨e, fun call h => (by rw [h] at he; cases he), hs⟩
  exact ⟨s, s₁, s₂, htasks, hcall, hfinished, htasks ▸ hjoined⟩

end Acc.Concurrency.CPUThreadPoolExecutor
