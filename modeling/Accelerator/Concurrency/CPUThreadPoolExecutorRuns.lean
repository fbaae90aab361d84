import Accelerator.Concurrency.CPUThreadPoolExecutorStops

namespace Acc.Concurrency.CPUThreadPoolExecutor

open Function List

open Interleaving (Settled tally plus Leads Every)

noncomputable def number (s : State) : Kind → Nat := tally Worker.is s

def clean (s : State) : Event → Bool
  | .control =>
    match s.mem.control with
    | .addThreads _ (_ + 1) => !s.mem.queue.contains .poison
    | _ => true
  | _ => true

structure Inv (strict : Bool) (s : State) : Prop where
  settled : Settled .unborn s
  fresh : ∀ id, s.mem.nextId ≤ id → s.pc id = .unborn
  born : ∀ id, id < s.mem.nextId → s.pc id ≠ .unborn
  nodup : s.mem.threadList.Nodup
  listed : ∀ id, id ∈ s.mem.threadList ↔ (s.pc id).is .listed = true
  passed : ∀ id, s.pc id ≠ .failed
  sums : number s .listed = owing (number s) + number s .departing
  balance : Balance strict (number s) s.mem

section Numbers

variable {strict : Bool} {n : Kind → Nat} {p : Worker}

lemma sums_more : more n p .listed = owing (more n p) + more n p .departing ↔
    n .listed = owing n + n .departing := by
  cases p <;> simp only [owing, more, plus, Worker.is, Bool.toNat_true, Bool.toNat_false] <;> omega

lemma is_unborn (k : Kind) : Worker.is k .unborn = false := by
  cases k <;> rfl

lemma Inv.length_threadList {s : State} (h : Inv strict s) :
    s.mem.threadList.length = owing (number s) + number s .departing := by
  have hset : {id | Worker.is .listed (s.pc id) = true} = (s.mem.threadList.toFinset : Set Nat) := by
    ext id
    rw [Set.mem_ofPred_eq, ← h.listed id]
    simp
  rw [← h.sums, number, tally, hset, Set.ncard_coe_finset, toFinset_card_of_nodup h.nodup]

end Numbers

lemma Inv.start (strict isJoin : Bool) : Inv strict (start isJoin) := by
  have hzero : number (CPUThreadPoolExecutor.start isJoin) = fun _ => 0 :=
    Interleaving.tally_all _ is_unborn
  refine ⟨.all _, fun _ _ => rfl, nofun, .nil, fun id => ⟨nofun, nofun⟩, nofun, ?_, ?_⟩
  · rw [hzero]
    rfl
  · rw [hzero]
    exact ⟨rfl, le_rfl, nofun, trivial, fun _ _ => rfl, fun _ => ⟨rfl, rfl⟩, fun _ _ => rfl, nofun,
      nofun⟩

section Workers

variable {pick : List CPUTask → Nat → Bool} {ch : Choice} {id : Nat} {strict : Bool} {m m' : Mem}
  {p p' : Worker}

lemma workerStep_listed : Leads (fun m' p' => p' ≠ .failed →
    m'.nextId = m.nextId ∧ p ≠ .unborn ∧ p' ≠ .unborn ∧
      ((m'.threadList = m.threadList ∧ p'.is .listed = p.is .listed) ∨
        (p = .locked ∧ p' = .removed ∧ m'.threadList = m.threadList.erase id)))
    (workerStep pick ch id m p) := by
  cases p with
  | unborn | failed | done => trivial
  | take =>
    refine .intro fun m' p' hs _ => ?_
    obtain ⟨task, -, -, rfl, rfl⟩ := take_spec hs
    cases task with
    | poison | task => exact ⟨rfl, by simp, by simp, .inl ⟨rfl, rfl⟩⟩
  | locked => exact fun _ => ⟨rfl, by simp, by simp, .inr ⟨rfl, rfl, rfl⟩⟩
  | stopping =>
    rw [workerStep]
    split
    · exact fun _ => ⟨rfl, by simp, by simp, .inl ⟨rfl, rfl⟩⟩
    · trivial
  | poisoned =>
    dsimp only [workerStep, Leads]
    split
    · exact fun _ => ⟨rfl, by simp, by simp, .inl ⟨rfl, rfl⟩⟩
    · exact fun hp' => absurd rfl hp'
  | checkStop | checkJoin | tryStop =>
    dsimp only [workerStep, Leads]
    split <;> exact fun _ => ⟨rfl, by simp, by simp, .inl ⟨rfl, rfl⟩⟩
  | _ => exact fun _ => ⟨rfl, by simp, by simp, .inl ⟨rfl, rfl⟩⟩

lemma Inv.worker {s : State} (h : Inv strict s) (hs : workerStep pick ch id s.mem (s.pc id) = some (m', p')) :
    Inv strict ⟨m', update s.pc id p'⟩ := by
  obtain ⟨n, hbefore, hafter⟩ := h.settled.tally_client is_unborn id
  have hbalance := h.balance
  have hsums := h.sums
  rw [number, hbefore] at hbalance hsums
  obtain ⟨hbalance', hpassed⟩ := (workerStep_balance hbalance).of_eq hs
  obtain ⟨hnext, hborn, hborn', hlisted⟩ := workerStep_listed.of_eq hs hpassed
  have hold : id < s.mem.nextId := by
    by_contra hge
    exact hborn (h.fresh id (Nat.le_of_not_lt hge))
  refine ⟨h.settled.client, ?_, ?_, ?_, ?_, ?_, ?_, ?_⟩
  · rw [hnext]
    refine (forall_update_iff s.pc fun b p => s.mem.nextId ≤ b → p = .unborn).mpr ⟨?_, ?_⟩
    · exact fun hge => absurd hold (Nat.not_lt.mpr hge)
    · exact fun b _ => h.fresh b
  · rw [hnext]
    exact (forall_update_iff s.pc fun b p => b < s.mem.nextId → p ≠ .unborn).mpr
      ⟨fun _ => hborn', fun b _ => h.born b⟩
  · rcases hlisted with ⟨hlist, _⟩ | ⟨_, _, hlist⟩
    · rw [hlist]
      exact h.nodup
    · rw [hlist]
      exact h.nodup.erase id
  · refine (forall_update_iff s.pc fun b p => b ∈ m'.threadList ↔ p.is .listed = true).mpr ?_
    rcases hlisted with ⟨hlist, hkind⟩ | ⟨_, hremoved, hlist⟩
    · rw [hlist, hkind]
      exact ⟨h.listed id, fun b _ => h.listed b⟩
    rw [hlist, hremoved]
    refine ⟨⟨fun hmem => absurd hmem h.nodup.not_mem_erase, nofun⟩, fun b hb => ?_⟩
    rw [mem_erase_of_ne hb]
    exact h.listed b
  · exact (forall_update_iff s.pc fun _ p => p ≠ .failed).mpr ⟨hpassed, fun b _ => h.passed b⟩
  · rw [number, hafter]
    exact sums_more.mpr (sums_more.mp hsums)
  · rw [number, hafter]
    exact hbalance'

end Workers

section Calls

variable {strict : Bool} {s s' : State}

lemma Inv.mem (h : Inv strict s) {m : Mem} (hlist : m.threadList = s.mem.threadList)
    (hnext : m.nextId = s.mem.nextId) (hbalance : Balance strict (number s) m) : Inv strict ⟨m, s.pc⟩ := by
  refine ⟨h.settled, ?_, ?_, ?_, ?_, h.passed, h.sums, hbalance⟩
  · rw [hnext]
    exact h.fresh
  · rw [hnext]
    exact h.born
  · rw [hlist]
    exact h.nodup
  · rw [hlist]
    exact h.listed

lemma Inv.add (h : Inv strict s) (expiration : Nat) :
    Inv strict ⟨{ s.mem.put (.task s.mem.tasks expiration) with tasks := s.mem.tasks + 1 }, s.pc⟩ := by
  have hpoison : (s.mem.queue ++ [CPUTask.task s.mem.tasks expiration]).count .poison
      = s.mem.queue.count .poison := by
    rw [count_append]
    rfl
  refine h.mem rfl rfl (h.balance.same rfl rfl rfl rfl rfl rfl ?_ h.balance.trying h.balance.stale)
  exact congrArg (· + number s .poisoned) hpoison

variable {call : Call}

lemma Inv.spawn (h : Inv strict s) {k : Nat} (hc : s.mem.control = .addThreads call (k + 1))
    (hclean : strict = true ∨ CPUTask.poison ∉ s.mem.queue) :
    Inv strict ⟨{ s.mem with threadList := s.mem.threadList ++ [s.mem.nextId],
                             nextId := s.mem.nextId + 1, control := .addThreads call k },
      update s.pc s.mem.nextId .starting⟩ := by
  have hunborn := h.fresh s.mem.nextId le_rfl
  have hnew : s.mem.nextId ∉ s.mem.threadList := by
    rw [h.listed, hunborn]
    exact Bool.false_ne_true
  obtain ⟨n, hbefore, hafter⟩ := h.settled.tally_client is_unborn s.mem.nextId
  have hn : number s = n := by
    rw [number, hbefore, hunborn]
    funext k
    rw [plus, is_unborn]
    rfl
  have hquiet := h.balance.quiet (by rw [hc]; rfl) (by simp [hc, Control.moded, Control.removing]) (by rw [hc]; rfl)
  have hplan := h.balance.plan
  have hsums := h.sums
  rw [hc] at hplan
  rw [hn] at hquiet hplan hsums
  refine ⟨h.settled.client, ?_, ?_, ?_, ?_, ?_, ?_, ?_⟩
  · refine (forall_update_iff s.pc fun b p => s.mem.nextId + 1 ≤ b → p = .unborn).mpr ⟨?_, ?_⟩
    · exact fun hge => absurd hge (Nat.not_succ_le_self _)
    · exact fun b _ hge => h.fresh b (Nat.le_of_succ_le hge)
  · refine (forall_update_iff s.pc fun b p => b < s.mem.nextId + 1 → p ≠ .unborn).mpr ⟨by simp, ?_⟩
    exact fun b hne hlt => h.born b (Nat.lt_of_le_of_ne (Nat.le_of_lt_succ hlt) hne)
  · exact nodup_append.mpr ⟨h.nodup, nodup_singleton _, by
      intro a ha b hb
      rw [mem_singleton] at hb
      rw [hb]
      exact fun heq => hnew (heq ▸ ha)⟩
  · refine (forall_update_iff s.pc fun b p =>
      b ∈ s.mem.threadList ++ [s.mem.nextId] ↔ p.is .listed = true).mpr ⟨?_, fun b hb => ?_⟩
    · exact ⟨fun _ => rfl, fun _ => mem_append_right _ (mem_singleton_self _)⟩
    · rw [mem_append, mem_singleton, ← h.listed b]
      exact ⟨fun h => h.resolve_right hb, .inl⟩
  · exact (forall_update_iff s.pc fun _ p => p ≠ .failed).mpr ⟨by simp, fun b _ => h.passed b⟩
  · rw [number, hafter]
    exact sums_more.mpr hsums
  rw [number, hafter]
  have hspawn := hquiet.spawn (hclean.imp_right count_eq_zero.mpr)
  have hcalls := h.balance.calls
  rw [hc] at hcalls
  have hframe : Quiet strict (more n .starting) { s.mem with
      threadList := s.mem.threadList ++ [s.mem.nextId], nextId := s.mem.nextId + 1,
      control := .addThreads call k } := hspawn.frame rfl rfl rfl rfl
  refine hframe.balance rfl (by rintro _ ⟨⟩) ?_ rfl rfl hcalls
  simp only [Control.Plan, owing, more, plus, Worker.is, Bool.toNat_true, Bool.toNat_false] at hplan ⊢
  omega

lemma Inv.resize (h : Inv strict s) (hc : s.mem.control = .locked call) :
    Inv strict ⟨{ s.mem with control := resize call s.mem.threadList.length }, s.pc⟩ := by
  have hquiet := h.balance.quiet (by rw [hc]; rfl) (by rw [hc]; nofun) (by rw [hc]; rfl)
  have hlength := h.length_threadList
  rw [hquiet.out.1, add_zero] at hlength
  have hframe : ∀ c, Quiet strict (number s) { s.mem with control := c } :=
    fun c => hquiet.frame rfl rfl rfl rfl
  have hcalls := h.balance.calls
  rw [hc] at hcalls
  refine h.mem rfl rfl ?_
  rw [hlength]
  cases call with
  | stop | join => exact (hframe _).balance rfl (fun _ h => nomatch h) rfl rfl rfl hcalls
  | setNumThreads n =>
    rw [CPUThreadPoolExecutor.resize]
    split
    · rename_i hgt
      refine (hframe _).balance rfl (fun _ h => nomatch h) ?_ rfl rfl hcalls
      show owing (number s) + (n - owing (number s)) = n
      omega
    split
    · rename_i hlt
      refine (hframe _).balance rfl (fun _ h => nomatch h) ?_ rfl rfl hcalls
      show owing (number s) = owing (number s) - n + n
      omega
    refine (hframe _).balance rfl (fun call h => ?_) trivial rfl rfl hcalls
    cases h
    show owing (number s) = n
    omega

lemma Inv.recontrol (h : Inv strict s) {c c' : Control} {lock : Option Owner} (hc : s.mem.control = c)
    (hremoving : c'.removing = c.removing) (hleft : c'.left = c.left)
    (hpoisonLeft : c'.poisonLeft = c.poisonLeft) (hmoded : c'.moded = c.moded)
    (hasks : c'.asks = c.asks) (hplan : c.Plan (owing (number s)) → c'.Plan (owing (number s)))
    (hcalls : (strict = true → c.call ≠ some .stop) → strict = true → c'.call ≠ some .stop) :
    Inv strict ⟨{ s.mem with lock, control := c' }, s.pc⟩ := by
  subst hc
  exact h.mem rfl rfl (h.balance.control rfl rfl rfl rfl hremoving hleft hpoisonLeft hmoded hasks
    (hplan h.balance.plan) (hcalls h.balance.calls))

lemma Inv.startup (h : Inv strict s) (hc : s.mem.control = .startup call) :
    Inv strict ⟨{ s.mem with control := .release call 0 }, s.pc⟩ := by
  have hquiet := h.balance.quiet (by rw [hc]; rfl) (by rw [hc]; nofun) (by rw [hc]; rfl)
  have hplan := h.balance.plan
  have hcalls := h.balance.calls
  rw [hc] at hplan hcalls
  have hframe : Quiet strict (number s) { s.mem with control := .release call 0 } :=
    hquiet.frame rfl rfl rfl rfl
  refine h.mem rfl rfl (hframe.balance rfl (fun call' h => ?_) trivial rfl rfl hcalls)
  cases h
  exact hplan

lemma Inv.control (h : Inv strict s) (hclean : strict = true ∨ clean s .control = true) :
    Every (Inv strict) (controlStep s) := by
  dsimp only [controlStep]
  split
  · trivial
  · next hc =>
    split
    · exact h.recontrol hc rfl rfl rfl rfl rfl id id
    · trivial
  · next hc => exact h.resize hc
  · next hc =>
    refine h.spawn hc (hclean.imp_right fun hclean => ?_)
    simpa [clean, hc] using hclean
  · next hc => exact h.recontrol hc rfl rfl rfl rfl rfl id id
  · next hc =>
    split
    · exact h.startup hc
    · trivial
  · next hc => exact h.mem rfl rfl (h.balance.removeThreads hc)
  · next hc => exact h.mem rfl rfl (h.balance.stopThreads hc)
  · next hc => exact h.mem rfl rfl (h.balance.addPoison hc)
  · next hc => exact h.recontrol hc rfl rfl rfl rfl rfl (fun _ => trivial) id
  · next hc => exact h.recontrol hc rfl rfl rfl rfl rfl (fun _ => trivial) id
  · next hc =>
    split
    · trivial
    · next hrest => exact h.mem rfl rfl (h.balance.joinStopped hc hrest)
  · next hc => exact h.mem rfl rfl (h.balance.returns hc)
  next hc =>
  split
  · exact h.recontrol hc rfl rfl rfl rfl rfl (fun _ => trivial) id
  · trivial

variable {pick : List CPUTask → Nat → Bool}

lemma Inv.step (h : Inv strict s) {e : Event} (hclean : strict = true ∨ clean s e = true)
    (hstop : strict = true → e ≠ .call .stop) (hs : step pick s e = some s') : Inv strict s' := by
  cases e with
  | add expiration =>
    cases hs
    exact h.add expiration
  | call call =>
    simp only [CPUThreadPoolExecutor.step] at hs
    split at hs
    · rename_i hc
      cases hs
      refine h.recontrol hc rfl rfl rfl rfl rfl id fun _ hstrict hcall => ?_
      cases hcall
      exact hstop hstrict rfl
    · cases hs
  | control => exact (h.control hclean).of_eq hs
  | worker id ch =>
    obtain ⟨r, hr, rfl⟩ := Option.map_eq_some_iff.mp hs
    exact h.worker hr

lemma inv_of_runs {isJoin : Bool} {ok : State → Event → Prop}
    (hclean : ∀ s e, ok s e → strict = true ∨ clean s e = true)
    (hstop : ∀ s e, ok s e → strict = true → e ≠ .call .stop)
    (h : Runs pick ok (start isJoin) s) : Inv strict s := by
  induction h with
  | refl => exact .start strict isJoin
  | tail _ hstep ih =>
    obtain ⟨e, he, hs⟩ := hstep
    exact ih.step (hclean _ e he) (hstop _ e he) hs

end Calls

theorem check_passes_of_runs {pick : List CPUTask → Nat → Bool} {isJoin : Bool} {s : State}
    (h : Runs pick (fun s e => clean s e = true) (start isJoin) s) (id : Nat) :
    s.pc id ≠ .failed :=
  have hinv : Inv false s := inv_of_runs (fun _ _ hclean => .inr hclean) (fun _ _ _ => nofun) h
  hinv.passed id

def play (pick : List CPUTask → Nat → Bool) (ok : State → Event → Bool) :
    List Event → State → Option State
  | [], s => some s
  | e :: events, s =>
    if ok s e then
      match step pick s e with
      | some s' => play pick ok events s'
      | none => none
    else none

variable {pick : List CPUTask → Nat → Bool} {ok : State → Event → Bool} {events : List Event}

lemma runs_of_play : ∀ {s s' : State}, play pick ok events s = some s' →
      Runs pick (fun s e => ok s e = true) s s' := by
  induction events with
  | nil =>
    intro s s' h
    cases h
    exact .refl
  | cons e events ih =>
    intro s s' h
    rw [play] at h
    split at h
    · rename_i hok
      split at h
      · rename_i s₁ hs
        exact .head ⟨e, hok, hs⟩ (ih h)
      · cases h
    · cases h

def controls (n : Nat) : List Event := List.replicate n .control

def workers (id n : Nat) : List Event := List.replicate n (.worker id {})

lemma exists_of_play {s : State} {α : Type} {f : State → α} {v : α}
    (h : (play pick ok events s).map f = some v) :
    ∃ s', Runs pick (fun s e => ok s e = true) s s' ∧ f s' = v := by
  obtain ⟨s', hplay, hv⟩ := Option.map_eq_some_iff.mp h
  exact ⟨s', runs_of_play hplay, hv⟩

def oneThread (id : Nat) : List Event :=
  [.call (.setNumThreads 1)] ++ controls 3 ++ workers id 1 ++ controls 4

def stopWhileRunning : List Event :=
  oneThread 0 ++ [.add 0] ++ workers 0 1 ++ [.call .stop] ++ controls 7 ++ workers 0 8 ++ controls 3

example : (play fifo clean stopWhileRunning (start false)).map
    (fun s => (s.mem.queue, s.mem.threadsToStop, s.mem.control)) = some ([.poison], 0, .idle) := by
  decide

theorem check_fails_after_stop : ∃ s, Runs fifo (fun _ _ => True) (start false) s ∧
    s.pc 1 = .failed := by
  have hplay : (play fifo (fun _ _ => true) (stopWhileRunning ++ oneThread 1 ++ workers 1 2)
      (start false)).map (fun s => s.pc 1) = some .failed := by decide
  obtain ⟨s, hruns, hs⟩ := exists_of_play hplay
  exact ⟨s, hruns.lift id fun _ _ ⟨e, _, he⟩ => ⟨e, trivial, he⟩, hs⟩

theorem check_passes_in_join : ∃ s, Runs fifo (fun s e => clean s e = true) (start false) s ∧
    s.mem.taken = [(0, .poison)] ∧ s.pc 0 = .stopping ∧ ∀ id, s.pc id ≠ .failed := by
  have hplay : (play fifo clean (oneThread 0 ++ [.call .join] ++ controls 7 ++ workers 0 2)
      (start false)).map (fun s => (s.mem.taken, s.pc 0)) = some ([(0, .poison)], .stopping) := by
    decide
  obtain ⟨s, hruns, hs⟩ := exists_of_play hplay
  obtain ⟨htaken, hpc⟩ := Prod.mk.injEq .. ▸ hs
  exact ⟨s, hruns, htaken, hpc, check_passes_of_runs hruns⟩

end Acc.Concurrency.CPUThreadPoolExecutor
