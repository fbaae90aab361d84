import Accelerator.Thread.SharedMutexWord

namespace Acc.Thread.SharedMutex

open Bool

open DeferredReaders (Slot Role Act Acts Solo Inv)
open Interleaving (Leads)

def draining (state : Word) : Role kMaxDeferredReaders :=
  .draining (has state kHasE) (has state kHasE && decide (count state = 0))

def scanning (state : Word) (slot moved : Nat) : Role kMaxDeferredReaders :=
  .scanning (has state kHasE) (has state kHasE && decide (count state = 0)) slot moved

def beginner (up : Bool) : Role kMaxDeferredReaders := if up then .upgrade else .out

def leaver : Release → Role kMaxDeferredReaders
  | .unlock => .reading
  | .retry .. => .undoing

def searcher (bestSlot : Fin kMaxDeferredReaders) : Release → Nat → Role kMaxDeferredReaders
  | .retry .., 0 => .claimed bestSlot false
  | k, _ => leaver k

def role : Pc → Role kMaxDeferredReaders
  | .held .none => .out
  | .held .exclusive => .exclusive
  | .held .upgrade => .upgrade
  | .held (.shared _) => .reading
  | .lockFast up _ _ => beginner up
  | .lockCas up _ _ => beginner up
  | .applySpin _ state slot => scanning state slot 0
  | .applyYield _ state slot => scanning state slot 0
  | .applyMove _ state slot moved => scanning state slot moved
  | .applyCas _ state slot moved tok =>
    .moving (has state kHasE) (has state kHasE && decide (count state = 0)) slot moved tok
  | .applyAdd _ state moved => scanning state kMaxDeferredReaders moved
  | .lockEnd _ state => draining state
  | .backOut state => draining state
  | .wait (.lock up _) _ _ => beginner up
  | .wait (.drain _) _ state => draining state
  | .sharedRecheck tok _ slot true => .claimed slot tok
  | .search k bestSlot i => searcher bestSlot k i
  | .searchCas k bestSlot i => searcher bestSlot k i
  | .freeSlot .unlock _ => .reading
  | .freeSlot (.retry ..) slot => .claimed slot true
  | .inline k => leaver k
  | .wake _ _ next => role next
  | .toShared .. => .exclusive
  | .toUpgrade _ => .exclusive
  | _ => .out

def DrainOk (readerPriority : Bool) (state : Word) : Prop :=
  readerPriority = false → has state kHasE = true

def Waiting (mask : Word) : Prop :=
  mask >>> 10 = 0 ∧ has mask kMayDefer = false ∧ has mask kHasE = false ∧
    has mask kBegunE = false ∧ has mask kHasU = false

instance (mask : Word) : Decidable (Waiting mask) := inferInstanceAs (Decidable (_ ∧ _))

def WaitOk (readerPriority : Bool) (state : Word) : Waiter → Prop
  | .lock up _ => up = false
  | .drain _ => DrainOk readerPriority state
  | _ => True

def Ok (readerPriority : Bool) : Pc → Prop
  | .lockFast up _ state =>
    has state (lockGoal up) = false ∧ has state kMayDefer = false ∧ count state = 0
  | .lockCas up _ state => has state (lockGoal up) = false
  | .applySpin _ state _ => DrainOk readerPriority state
  | .applyYield _ state _ => DrainOk readerPriority state
  | .applyMove _ state _ _ => DrainOk readerPriority state
  | .applyCas _ state _ _ _ => DrainOk readerPriority state
  | .applyAdd _ state _ => DrainOk readerPriority state
  | .lockEnd _ state => DrainOk readerPriority state ∧ has state kHasE = false ∧ count state = 0
  | .backOut state => DrainOk readerPriority state
  | .wait k phase state => WaitOk readerPriority state k ∧
      ∀ after, phase = .mark after → after = waitAfter state k.waitMask
  | .sharedFast _ _ state => has state kHasE = false
  | .sharedLook _ _ state => has state kHasE = false ∧
      (has state kMayDefer = false → readerPriority = true → has state kBegunE = false)
  | .sharedSearch _ _ state _ _ => has state kHasE = false ∧
      (has state kMayDefer = false → readerPriority = true → has state kBegunE = false)
  | .sharedCas _ _ state => has state kHasE = false
  | .sharedMark _ _ state _ => has state kHasE = false ∧
      (readerPriority = true → has state kBegunE = false)
  | .wake _ wakeMask next => Waiting wakeMask ∧ Ok readerPriority next
  | .upgradeCas _ state => has state kHasSolo = false
  | _ => True

lemma Acts.of_eq {m m' : DeferredReaders.Mem (2 ^ 22) kMaxDeferredReaders}
    {r r' : Role kMaxDeferredReaders} (hm : m' = m) (hr : r' = r) : Acts m r m' r' := by
  subst hm hr
  exact .refl

variable {prio : Bool} {m : Mem} {p : Pc}

section Tops

variable {state : Word} {slot : Fin kMaxDeferredReaders}

lemma role_lockTop (up : Bool) (ctx : WaitContext) (state : Word) :
    role (lockTop up ctx state) = beginner up := by
  rw [lockTop]
  split <;> rfl

variable (prio)

lemma ok_lockTop (up : Bool) (ctx : WaitContext) (state : Word) :
    Ok prio (lockTop up ctx state) := by
  rw [lockTop]
  split
  · next h =>
    refine ⟨?_, nofun⟩
    cases up with
    | false => rfl
    | true =>
      rw [lockGoal, if_pos rfl, has_iff] at h
      exact absurd BitVec.and_zero h
  · next h => exact eq_false_of_not_eq_true h

lemma sharedGo_spec (tok : Bool) (ctx : WaitContext) (he : has state kHasE = false) :
    role (sharedGo prio tok ctx state) = .out ∧ Ok prio (sharedGo prio tok ctx state) := by
  simp only [sharedGo]
  split
  · next h =>
    refine ⟨rfl, he, fun hd hp => ?_⟩
    simp only [hd, hp, Bool.false_or, Bool.true_and, and_eq_true, not_eq_true'] at h
    exact h.2
  · exact ⟨rfl, he⟩

lemma sharedTop_spec (tok : Bool) (ctx : WaitContext) (state : Word) :
    role (sharedTop prio tok ctx state) = .out ∧ Ok prio (sharedTop prio tok ctx state) := by
  rw [sharedTop]
  split
  · exact ⟨rfl, trivial, nofun⟩
  · next h => exact sharedGo_spec prio tok ctx (eq_false_of_not_eq_true h)

lemma released_spec (k : Release) :
    role (released prio k) = .out ∧ Ok prio (released prio k) := by
  cases k with
  | unlock => exact ⟨rfl, trivial⟩
  | retry tok ctx state => exact sharedTop_spec prio tok ctx state

variable {prio} (v : DeferredReaders.Mem (2 ^ 22) kMaxDeferredReaders) (ctx : WaitContext)

lemma wake_spec (state wakeMask : Word) (hmask : Waiting wakeMask) (hp : Ok prio p) :
    role (wakeRegisteredWaiters state wakeMask p) = role p ∧
      Ok prio (wakeRegisteredWaiters state wakeMask p) := by
  rw [wakeRegisteredWaiters]
  split
  · exact ⟨rfl, hmask, hp⟩
  · exact ⟨rfl, hp⟩

lemma drained_spec (hok : DrainOk prio state) (hc : count state = 0) :
    Acts v (draining state) v (role (drained prio ctx state)) ∧
      Ok prio (drained prio ctx state) := by
  rw [drained]
  split
  · next h =>
    rw [and_eq_true, not_eq_true'] at h
    exact ⟨.refl, hok, h.2, hc⟩
  next h =>
  have he : has state kHasE = true := by
    cases hp : prio with
    | false => exact hok hp
    | true =>
      rw [hp, Bool.true_and, not_eq_true', not_eq_false] at h
      exact h
  refine ⟨?_, trivial⟩
  rw [draining, he, hc]
  exact .last .acquire

lemma drainTop_spec (hok : DrainOk prio state) :
    Acts v (draining state) v (role (drainTop prio ctx state)) ∧
      Ok prio (drainTop prio ctx state) := by
  rw [drainTop]
  split
  · exact ⟨.refl, hok, nofun⟩
  next h =>
  refine drained_spec v ctx hok ?_
  rw [has_hasS] at h
  simpa using h

lemma scanned_spec (hok : DrainOk prio state) :
    Acts v (scanning state kMaxDeferredReaders 0) v (role (drainTop prio ctx state)) ∧
      Ok prio (drainTop prio ctx state) :=
  ⟨.cons .scanned rfl (drainTop_spec v ctx hok).1, (drainTop_spec v ctx hok).2⟩

lemma nextSlot_some {next : Fin kMaxDeferredReaders} (h : nextSlot slot = some next) :
    next.val = slot.val + 1 := by
  rw [nextSlot] at h
  split at h
  · cases h
    rfl
  · cases h

lemma nextSlot_none (h : nextSlot slot = none) : slot.val + 1 = kMaxDeferredReaders := by
  rw [nextSlot] at h
  split at h
  · cases h
  · have := slot.isLt
    omega

lemma applyNext_spec (slot : Fin kMaxDeferredReaders) (moved : Nat) (hok : DrainOk prio state) :
    Acts v (scanning state (slot + 1) moved) v (role (applyNext prio ctx state slot moved)) ∧
      Ok prio (applyNext prio ctx state slot moved) := by
  rw [applyNext]
  cases h : nextSlot slot with
  | some next =>
    refine ⟨Acts.of_eq rfl ?_, hok⟩
    rw [role, nextSlot_some h]
  | none =>
    rw [nextSlot_none h]
    dsimp only
    split
    · exact ⟨.refl, hok⟩
    · next hmoved =>
      cases Nat.eq_zero_of_not_pos hmoved
      exact scanned_spec v ctx hok

end Tops

def Sim (readerPriority : Bool) (m : Mem) (p : Pc) (m' : Mem) (p' : Pc) : Prop :=
  Acts (view m) (role p) (view m') (role p') ∧ Ok readerPriority p'

def Agree (m : Mem) (p : Pc) : Prop :=
  ∀ k, (role p).solo = some k → (view m).solo = Solo.bits (some k)

def Simulated (readerPriority : Bool) (ch : Choice) (m : Mem) (p : Pc) : Prop :=
  Ok readerPriority p → Agree m p → Leads (Sim readerPriority m p) (step readerPriority ch m p)

lemma Sim.stay {p' : Pc} (h : role p' = role p ∧ Ok prio p') : Sim prio m p m p' :=
  ⟨Acts.of_eq rfl h.1, h.2⟩

section Operations

variable {ch : Choice} {up tok : Bool} {ctx : WaitContext} {state : Word}
  {slot bestSlot : Fin kMaxDeferredReaders} {moved i : Nat}

lemma Agree.hasE {e : Bool} (h : Agree m p)
    (hp : (role p).solo = some (if e then .exclusive else .begun)) : has m.state kHasE = e := by
  have hbits := h _ hp
  cases e with
  | false | true => exact congrArg (fun b => b.1) hbits

lemma Agree.upgrade (h : Agree m p) (hp : (role p).solo = some .upgrade) :
    Reads m.state (count m.state) (has m.state kMayDefer) false false true := by
  have hbits := h _ hp
  exact ⟨rfl, rfl, congrArg (fun b => b.1) hbits, congrArg (fun b => b.2.1) hbits,
    congrArg (fun b => b.2.2) hbits⟩

lemma Agree.exclusive (h : Agree m p) (hp : (role p).solo = some .exclusive) :
    Reads m.state (count m.state) (has m.state kMayDefer) true false false := by
  have hbits := h _ hp
  exact ⟨rfl, rfl, congrArg (fun b => b.1) hbits, congrArg (fun b => b.2.1) hbits,
    congrArg (fun b => b.2.2) hbits⟩

lemma solo_of_goal (h : has state kHasSolo = false) :
    has state kHasE = false ∧ has state kBegunE = false ∧ has state kHasU = false := by
  rw [kHasSolo, has_mask_or, has_mask_or, or_eq_false_iff, or_eq_false_iff] at h
  exact ⟨h.1.1, h.1.2, h.2⟩

lemma Agree.mayBegin (h : Agree m p) (hp : role p = beginner up)
    (hgoal : has m.state (lockGoal up) = false) :
    DeferredReaders.MayBegin (view m) (beginner up) ∧ has m.state kHasE = false ∧
      has m.state kBegunE = false := by
  cases up with
  | true =>
    obtain ⟨_, _, he, hb, _⟩ := h.upgrade (by rw [hp]; rfl)
    exact ⟨.inr rfl, he, hb⟩
  | false =>
    obtain ⟨he, hb, hu⟩ := solo_of_goal hgoal
    refine ⟨.inl ⟨rfl, ?_⟩, he, hb⟩
    rw [DeferredReaders.Mem.solo, view, he, hb, hu]
    rfl

lemma sim_tryLock (hp : role p = beginner up) :
    Sim prio m p m (if !has m.state (lockGoal up ||| kMayDefer ||| kHasS)
      then .lockFast up ctx m.state else lockTop up ctx m.state) := by
  split
  · next hf =>
    rw [not_eq_true', has_mask_or, has_mask_or, or_eq_false_iff,
      or_eq_false_iff, has_hasS] at hf
    exact ⟨Acts.of_eq rfl hp.symm, hf.1.1, hf.1.2, by simpa using hf.2⟩
  · exact .stay ⟨(role_lockTop ..).trans hp.symm, ok_lockTop ..⟩

lemma Sim.wake {m' : Mem} {p' : Pc} (h : Sim prio m p m' p') (state : Word)
    {wakeMask : Word} (hmask : Waiting wakeMask) :
    Sim prio m p m' (wakeRegisteredWaiters state wakeMask p') := by
  obtain ⟨hr, hok⟩ := wake_spec state wakeMask hmask h.2
  refine ⟨?_, hok⟩
  rw [hr]
  exact h.1

lemma sim_call (h : Held) : Simulated prio ch m (.held h) := by
  intro _ ha
  rw [step]
  unfold call
  split
  · -- lock
    exact sim_tryLock rfl
  · -- lock_shared
    split
    · next hf =>
      rw [not_eq_true', has_mask_or, or_eq_false_iff] at hf
      exact ⟨.refl, hf.2⟩
    · exact .stay (sharedTop_spec ..)
  · -- lock_upgrade
    exact ⟨.refl, trivial, nofun⟩
  · -- unlock
    refine Sim.wake ?_ _ (by decide)
    refine ⟨?_, trivial⟩
    rw [(Reads.self m.state).unlock.view]
    exact .last .unlock
  · exact ⟨.refl, trivial⟩
  · exact ⟨.refl, trivial⟩
  · -- unlock_upgrade
    have hread := ha.upgrade rfl
    refine Sim.wake ?_ _ (by decide)
    refine ⟨?_, trivial⟩
    rw [hread.unlockUpgrade.view, hread.view (m := m)]
    exact .last .dropUpgrade
  · -- unlock_upgrade_and_lock
    exact sim_tryLock rfl
  · -- unlock_upgrade_and_lock_shared
    have hread := ha.upgrade rfl
    refine Sim.wake ?_ _ (by decide)
    refine ⟨?_, trivial⟩
    rw [hread.upgradeToShared.view, hread.view (m := m)]
    exact .last .upgradeToShared
  · -- unlock_shared
    split
    · exact ⟨.refl, trivial⟩
    · exact ⟨.refl, trivial⟩
  · exact ⟨.refl, trivial⟩
  · exact ⟨.refl, trivial⟩
  · trivial

lemma sim_lockFast : Simulated prio ch m (.lockFast up ctx state) := by
  rintro ⟨hgoal, hd, hc⟩ ha
  rw [step]
  split
  · next heq =>
    subst heq
    refine ⟨?_, trivial⟩
    rw [(Reads.self m.state).lockFast.view]
    exact .last (.lockAtOnce (ha.mayBegin rfl hgoal).1 hd hc)
  · exact .stay ⟨role_lockTop .., ok_lockTop ..⟩

lemma sim_lockCas : Simulated prio ch m (.lockCas up ctx state) := by
  intro hok ha
  rw [step]
  split
  · next heq =>
    subst heq
    obtain ⟨hmay, he, hb⟩ := ha.mayBegin rfl hok
    generalize hnow : (!prio || (!has m.state kMayDefer && decide (count m.state = 0))) = now
    have hread : Reads (lockAfter prio m.state) (count m.state) false now (!now) false := by
      have := (Reads.self m.state).lockAfter prio
      rw [he, hb, hnow] at this
      simpa using this
    have hdrain : DrainOk prio (lockAfter prio m.state) := by
      intro hp
      rw [hread.2.2.1, ← hnow, hp]
      rfl
    have hact := Act.begin now hmay
    dsimp only [Leads]
    rw [Sim, hread.view]
    split
    · next hd =>
      refine ⟨.last ?_, hdrain⟩
      rw [if_pos (show (view m).mayDefer = true from hd)] at hact
      show Act _ _ _ (scanning (lockAfter prio m.state) 0 0)
      rw [scanning, hread.2.2.1, hread.1]
      exact hact
    next hd =>
    rw [if_neg (show ¬ (view m).mayDefer = true from hd)] at hact
    obtain ⟨hacts, hok'⟩ := drainTop_spec (view ⟨lockAfter prio m.state, m.slots⟩) ctx hdrain
    refine ⟨.cons hact ?_ ?_, hok'⟩
    · cases up <;> rfl
    · rw [draining, hread.2.2.1, hread.1, hread.view (m := ⟨_, m.slots⟩)] at hacts
      exact hacts
  · exact .stay ⟨role_lockTop .., ok_lockTop ..⟩

lemma sim_pass (hok : DrainOk prio state) (hp : role p = scanning state slot 0)
    (hslot : (m.slots slot).isThis = false) {next : Fin kMaxDeferredReaders → Pc}
    (hnext : ∀ j, role (next j) = scanning state j 0 ∧ Ok prio (next j)) :
    Leads (Sim prio m p) (match nextSlot slot with
      | some j => some (m, next j)
      | none => some (m, drainTop prio ctx state)) := by
  have hact : Act (view m) (scanning state slot 0) (view m) (scanning state (slot + 1) 0) :=
    .pass hslot
  rw [← hp] at hact
  cases hn : nextSlot slot with
  | some j =>
    refine ⟨.last ?_, (hnext j).2⟩
    rw [(hnext j).1, nextSlot_some hn]
    exact hact
  | none =>
    rw [nextSlot_none hn] at hact
    obtain ⟨hacts, hok'⟩ := scanned_spec (view m) ctx hok
    exact ⟨.cons hact (by rw [hp]; rfl) hacts, hok'⟩

lemma sim_applySpin : Simulated prio ch m (.applySpin ctx state slot) := by
  intro hok _
  rw [step]
  split
  · dsimp only [Leads]
    split <;> exact ⟨.refl, hok⟩
  · next hslot => exact sim_pass hok rfl (eq_false_of_not_eq_true hslot) fun _ => ⟨rfl, hok⟩

lemma sim_applyYield : Simulated prio ch m (.applyYield ctx state slot) := by
  intro hok _
  rw [step]
  split
  · dsimp only [Leads]
    split <;> exact ⟨.refl, hok⟩
  · next hslot => exact sim_pass hok rfl (eq_false_of_not_eq_true hslot) fun _ => ⟨rfl, hok⟩

lemma sim_applyMove : Simulated prio ch m (.applyMove ctx state slot moved) := by
  intro hok _
  rw [step]
  split
  · next tok hslot => exact ⟨.last (.aim hslot), hok⟩
  next hnot =>
  have hslot : (m.slots slot).isThis = false := by
    cases hs : m.slots slot with
    | this tok => exact absurd hs (hnot tok)
    | zero | other => rfl
  obtain ⟨hacts, hok'⟩ := applyNext_spec (view m) ctx slot moved hok
  exact ⟨.cons (.pass hslot) rfl hacts, hok'⟩

lemma sim_applyCas : Simulated prio ch m (.applyCas ctx state slot moved tok) := by
  intro hok _
  rw [step]
  split
  · next hslot =>
    obtain ⟨hacts, hok'⟩ := applyNext_spec (view (m.setSlot slot .zero)) ctx slot (moved + 1) hok
    exact ⟨.cons (.move hslot) rfl hacts, hok'⟩
  · next hslot =>
    obtain ⟨hacts, hok'⟩ := applyNext_spec (view m) ctx slot moved hok
    exact ⟨.cons (.slip hslot) rfl hacts, hok'⟩

lemma sim_applyAdd : Simulated prio ch m (.applyAdd ctx state moved) := by
  intro hok ha
  have hE : has m.state kHasE = has state kHasE := ha.hasE rfl
  have hread := (Reads.self m.state).add moved
  have hdrain : DrainOk prio (m.state + BitVec.ofNat 32 moved * kIncrHasS) := by
    intro hp
    rw [hread.2.2.1, hE]
    exact hok hp
  obtain ⟨hacts, hok'⟩ := drainTop_spec (view ⟨m.state + BitVec.ofNat 32 moved * kIncrHasS, m.slots⟩)
    ctx hdrain
  refine ⟨.cons .add rfl ?_, hok'⟩
  rw [draining, hread.2.2.1, hread.1, hE] at hacts
  rw [hread.view (m := ⟨_, m.slots⟩)] at hacts ⊢
  exact hacts

lemma sim_look (v : DeferredReaders.Mem (2 ^ 22) kMaxDeferredReaders)
    (hE : has m.state kHasE = has state kHasE) {r : Role kMaxDeferredReaders}
    (h : Acts (view m) (draining m.state) v r) : Acts (view m) (draining state) v r := by
  refine .cons .look rfl ?_
  rw [draining, hE] at h
  exact h

lemma sim_lockEnd : Simulated prio ch m (.lockEnd ctx state) := by
  rintro ⟨hdrain, he, hc⟩ ha
  have hE : has m.state kHasE = has state kHasE := ha.hasE rfl
  rw [step]
  split
  · next heq =>
    subst heq
    refine ⟨?_, trivial⟩
    rw [(Reads.self m.state).lockEnd.view]
    show Acts _ (draining m.state) _ .exclusive
    rw [draining, he]
    exact .last (.convert hc)
  · have hdrain' : DrainOk prio m.state := fun hp => hE.trans (hdrain hp)
    obtain ⟨hacts, hok'⟩ := drainTop_spec (view m) ctx hdrain'
    exact ⟨sim_look _ hE hacts, hok'⟩

lemma sim_backOut : Simulated prio ch m (.backOut state) := by
  intro _ _
  refine Sim.wake ?_ _ (by decide)
  refine ⟨?_, trivial⟩
  rw [(Reads.self m.state).backOut.view]
  exact .last .backOut

section Wait

variable {k : Waiter} {phase : Phase}

lemma sim_reload (phase' : Phase) (hok : WaitOk prio state k) (ha : Agree m (.wait k phase state)) :
    WaitOk prio m.state k ∧
      ∀ {r : Role kMaxDeferredReaders}, Acts (view m) (role (.wait k phase' m.state)) (view m) r →
        Acts (view m) (role (.wait k phase state)) (view m) r := by
  cases k with
  | lock up ctx => exact ⟨hok, id⟩
  | drain ctx =>
    have hE : has m.state kHasE = has state kHasE := ha.hasE rfl
    exact ⟨fun hp => hE.trans (hok hp), fun h => sim_look _ hE h⟩
  | shared tok ctx | upgrade ctx => exact ⟨trivial, id⟩

lemma waited_spec (phase : Phase) (hok : WaitOk prio m.state k) (hgoal : has m.state k.goal = false) :
    Sim prio m (.wait k phase m.state) m (waited prio m.state k) := by
  cases k with
  | lock up ctx | upgrade ctx => exact ⟨.refl, hgoal⟩
  | drain ctx =>
    refine drained_spec (view m) ctx hok ?_
    rw [Waiter.goal, has_hasS] at hgoal
    simpa using hgoal
  | shared tok ctx => exact .stay (sharedGo_spec prio tok ctx hgoal)

lemma gaveUp_spec (phase : Phase) (hok : WaitOk prio state k) (hctx : k.ctx.canTimeOut = true) :
    role (gaveUp prio state k) = role (.wait k phase state) ∧ Ok prio (gaveUp prio state k) := by
  cases k with
  | lock up ctx =>
    cases hok
    rw [gaveUp, if_pos (show ctx.canTimeOut = true from hctx)]
    exact ⟨rfl, trivial⟩
  | drain ctx =>
    rw [gaveUp, if_pos (show ctx.canTimeOut = true from hctx)]
    exact ⟨rfl, hok⟩
  | shared tok ctx =>
    rw [gaveUp, if_pos (show ctx.canTimeOut = true from hctx)]
    exact ⟨rfl, trivial⟩
  | upgrade ctx => exact ⟨rfl, trivial⟩

lemma canTimeOut_of_canBlock (h : ctx.canBlock = false) : ctx.canTimeOut = true := by
  cases ctx with
  | never => rfl
  | forever | timed => cases h

lemma role_wait (phase phase' : Phase) : role (.wait k phase state) = role (.wait k phase' state) := by
  cases k <;> rfl

lemma waitMask_cases (k : Waiter) : k.waitMask = kWaitingE ∨ k.waitMask = kWaitingNotS ∨
    k.waitMask = kWaitingS ∨ k.waitMask = kWaitingU := by
  cases k with
  | lock => exact .inl rfl
  | drain => exact .inr (.inl rfl)
  | shared => exact .inr (.inr (.inl rfl))
  | upgrade => exact .inr (.inr (.inr rfl))

lemma sim_wait : Simulated prio ch m (.wait k phase state) := by
  rintro ⟨hwait, hmark⟩ ha
  have hreload := fun phase' => sim_reload phase' hwait ha
  have hwait' := (hreload .spin).1
  have hwaited : has m.state k.goal = false →
      Sim prio m (.wait k phase state) m (waited prio m.state k) := by
    intro hgoal
    obtain ⟨hacts, hok'⟩ := waited_spec .spin hwait' hgoal
    exact ⟨(hreload .spin).2 hacts, hok'⟩
  have hgaveUp : k.ctx.canTimeOut = true →
      Sim prio m (.wait k phase state) m (gaveUp prio m.state k) := by
    intro hctx
    obtain ⟨hr, hok'⟩ := gaveUp_spec .spin hwait' hctx
    exact ⟨(hreload .spin).2 (Acts.of_eq rfl hr), hok'⟩
  have hstay : ∀ phase', (∀ after, phase' = .mark after → after = waitAfter m.state k.waitMask) →
      Sim prio m (.wait k phase state) m (.wait k phase' m.state) :=
    fun phase' hm => ⟨(hreload phase').2 .refl, hwait', hm⟩
  rw [step]
  cases phase with
  | spin =>
    rw [stepWait]
    split
    · next hgoal => exact hwaited (by simpa using hgoal)
    split
    · exact hstay .spin nofun
    · split
      · exact hstay .yield nofun
      · next hblock => exact hgaveUp (canTimeOut_of_canBlock (eq_false_of_not_eq_true hblock))
  | yield =>
    rw [stepWait]
    split
    · next hgoal => exact hwaited (by simpa using hgoal)
    split
    · next hout =>
      rw [and_eq_true] at hout
      exact hgaveUp hout.1
    · refine hstay _ ?_
      split <;> exact nofun
  | futex =>
    rw [stepWait]
    split
    · next hgoal => exact hwaited (by simpa using hgoal)
    refine hstay _ fun after hafter => ?_
    split at hafter
    · cases hafter
      rfl
    · cases hafter
  | mark after =>
    rw [stepWait]
    split
    · next heq =>
      subst heq
      have hafter := hmark after rfl
      subst hafter
      refine ⟨?_, hwait, nofun⟩
      rw [((Reads.self m.state).waitAfter (waitMask_cases k)).view, role_wait .sleep (.mark _)]
      exact .refl
    · exact hstay .futex nofun
  | sleep =>
    rw [stepWait]
    split
    · next hout =>
      rw [and_eq_true] at hout
      exact .stay (gaveUp_spec .sleep hwait hout.1)
    · exact .stay ⟨role_wait .futex .sleep, hwait, nofun⟩

end Wait

section Shared

lemma sim_sharedTop (hp : role p = .out) : Sim prio m p m (sharedTop prio tok ctx m.state) := by
  obtain ⟨hr, hok⟩ := sharedTop_spec prio tok ctx m.state
  exact .stay ⟨hr.trans hp.symm, hok⟩

lemma sim_enter (hp : role p = .out) (he : has state kHasE = false) : Leads (Sim prio m p)
      (if m.state = state then some ({ m with state := state + kIncrHasS }, .held (sharedInline tok))
        else some (m, sharedTop prio tok ctx m.state)) := by
  split
  · next heq =>
    subst heq
    refine ⟨?_, trivial⟩
    rw [(Reads.self m.state).incr.view, hp]
    exact .last (.enter he)
  · exact sim_sharedTop hp

lemma sim_sharedFast : Simulated prio ch m (.sharedFast tok ctx state) :=
  fun hok _ => sim_enter rfl hok

lemma sim_sharedCas : Simulated prio ch m (.sharedCas tok ctx state) :=
  fun hok _ => sim_enter rfl hok

lemma sharedFound_spec (slot : Fin kMaxDeferredReaders)
    (hok : Ok prio (.sharedLook tok ctx state)) : role (sharedFound tok ctx state slot) = .out ∧
      Ok prio (sharedFound tok ctx state slot) := by
  rw [sharedFound]
  split
  · exact ⟨rfl, trivial⟩
  · next hd => exact ⟨rfl, hok.1, hok.2 (eq_false_of_not_eq_true hd)⟩

lemma sim_sharedLook : Simulated prio ch m (.sharedLook tok ctx state) := by
  intro hok _
  rw [step]
  split
  · exact .stay (sharedFound_spec ch.hint hok)
  · exact ⟨.refl, hok⟩

lemma sim_sharedSearch : Simulated prio ch m (.sharedSearch tok ctx state bestSlot i) := by
  intro hok _
  have hlook : Ok prio (.sharedLook tok ctx state) := hok
  rw [step]
  split
  · exact .stay (sharedFound_spec (slotNear bestSlot i) hlook)
  rw [sharedSearchNext]
  split
  · exact ⟨.refl, hok⟩
  · exact ⟨.refl, hok.1⟩

lemma sim_sharedMark (hbegun : prio = false → has m.state kBegunE = false) :
    Simulated prio ch m (.sharedMark tok ctx state slot) := by
  intro hok _
  rw [step]
  split
  · next heq =>
    subst heq
    have hb : has m.state kBegunE = false := by
      cases hp : prio with
      | false => exact hbegun hp
      | true => exact hok.2 hp
    refine ⟨?_, trivial⟩
    rw [(Reads.self m.state).mayDefer.view]
    exact .last (.allow hok.1 hb)
  · split
    · exact sim_sharedTop rfl
    · exact ⟨.refl, trivial⟩

lemma sim_sharedClaim : Simulated prio ch m (.sharedClaim tok ctx slot) := by
  intro _ _
  rw [step]
  split
  · next hslot => exact ⟨.last (.claim hslot), trivial⟩
  · exact ⟨.refl, trivial⟩

lemma sim_sharedRecheck {gotSlot : Bool} :
    Simulated prio ch m (.sharedRecheck tok ctx slot gotSlot) := by
  intro _ _
  rw [step]
  cases gotSlot with
  | false => exact sim_sharedTop rfl
  | true =>
    simp only [Bool.not_true, false_eq_true, if_false]
    split
    · next hd => exact ⟨.last (.confirm hd), trivial⟩
    · cases tok with
      | false | true => exact ⟨.refl, trivial⟩

end Shared

section Release

variable {k : Release}

lemma slotNear_zero (bestSlot : Fin kMaxDeferredReaders) : slotNear bestSlot 0 = bestSlot := by
  rw [slotNear, Nat.xor_zero]
  exact Fin.ofNat_val_eq_self bestSlot

lemma searchNext_spec (prio : Bool) (k : Release) (bestSlot : Fin kMaxDeferredReaders) (i : Nat) :
    role (searchNext k bestSlot (i + 1)) = leaver k ∧ Ok prio (searchNext k bestSlot (i + 1)) := by
  rw [searchNext]
  split
  · cases k <;> exact ⟨rfl, trivial⟩
  · exact ⟨rfl, trivial⟩

lemma sim_searchNext (hp : role p = searcher bestSlot k i)
    (hslot : m.slots (slotNear bestSlot i) ≠ .this false) :
    Sim prio m p m (searchNext k bestSlot (i + 1)) := by
  obtain ⟨hr, hok⟩ := searchNext_spec prio k bestSlot i
  refine ⟨?_, hok⟩
  rw [hr, hp]
  cases k with
  | unlock => exact .refl
  | retry tok ctx state =>
    cases i with
    | zero =>
      rw [slotNear_zero] at hslot
      exact .last (.miss hslot)
    | succ i => exact .refl

lemma sim_search : Simulated prio ch m (.search k bestSlot i) := by
  intro _ _
  rw [step]
  split
  · exact ⟨.refl, trivial⟩
  · next hslot => exact sim_searchNext rfl hslot

lemma sim_searchCas : Simulated prio ch m (.searchCas k bestSlot i) := by
  intro _ _
  rw [step]
  split
  · next hslot =>
    obtain ⟨hr, hok⟩ := released_spec prio k
    refine ⟨?_, hok⟩
    rw [hr]
    cases k with
    | unlock => exact .last (.free hslot)
    | retry tok ctx state =>
      cases i with
      | zero =>
        rw [slotNear_zero] at hslot ⊢
        exact .last (.undo hslot)
      | succ i => exact .last (.undoOther hslot)
  · next hslot => exact sim_searchNext rfl hslot

lemma sim_freeSlot : Simulated prio ch m (.freeSlot k slot) := by
  intro _ _
  rw [step]
  split
  · next hslot =>
    obtain ⟨hr, hok⟩ := released_spec prio k
    refine ⟨?_, hok⟩
    rw [hr]
    cases k with
    | unlock => exact .last (.free hslot)
    | retry tok ctx state => exact .last (.undo hslot)
  next hslot =>
  refine ⟨?_, trivial⟩
  cases k with
  | unlock => exact .refl
  | retry tok ctx state => exact .last (.miss hslot)

lemma sim_inline : Simulated prio ch m (.inline k) := by
  intro _ _
  obtain ⟨hr, hok⟩ := released_spec prio k
  have hleave : Sim prio m (.inline k) { m with state := m.state - kIncrHasS }
      (released prio k) := by
    refine ⟨?_, hok⟩
    rw [hr, (Reads.self m.state).decr.view]
    cases k with
    | unlock => exact .last .leave
    | retry tok ctx state => exact .last .leaveUndone
  rw [step]
  split
  · exact hleave.wake _ (by decide)
  · exact hleave

end Release

lemma sim_wake {wakeMask : Word} {next : Pc} :
    Simulated prio ch m (.wake state wakeMask next) := by
  intro hok _
  rw [step]
  split
  · exact ⟨.refl, hok.2⟩
  refine ⟨Acts.of_eq ?_ rfl, hok.2⟩
  have hread := (Reads.self m.state).andNot wakeMask false false false false hok.1
  simp only [Bool.not_false, Bool.and_true] at hread
  exact hread.view

lemma sim_upgradeCas : Simulated prio ch m (.upgradeCas ctx state) := by
  intro hok _
  rw [step]
  split
  · next heq =>
    subst heq
    obtain ⟨he, hb, hu⟩ := solo_of_goal hok
    have hnone : (view m).solo = Solo.bits none := by
      rw [DeferredReaders.Mem.solo, view, he, hb, hu]
      rfl
    refine ⟨?_, trivial⟩
    rw [(Reads.self m.state).hasU.view]
    exact .last (.takeUpgrade hnone)
  · exact ⟨.refl, trivial, by simp⟩

lemma sim_toShared : Simulated prio ch m (.toShared tok state) := by
  intro _ _
  rw [step]
  split
  · next heq =>
    subst heq
    refine ⟨?_, trivial⟩
    rw [(Reads.self m.state).toShared.view]
    exact .last .unlockToShared
  · exact ⟨.refl, trivial⟩

lemma sim_toUpgrade : Simulated prio ch m (.toUpgrade state) := by
  intro _ ha
  rw [step]
  split
  · next heq =>
    subst heq
    have hread := ha.exclusive rfl
    refine ⟨?_, trivial⟩
    rw [hread.toUpgrade.view, hread.view (m := m)]
    exact .last .unlockToUpgrade
  · exact ⟨.refl, trivial⟩

lemma simulated (hbegun : prio = false → has m.state kBegunE = false) (p : Pc) :
    Simulated prio ch m p := by
  cases p with
  | held => exact sim_call _
  | lockFast => exact sim_lockFast
  | lockCas => exact sim_lockCas
  | applySpin => exact sim_applySpin
  | applyYield => exact sim_applyYield
  | applyMove => exact sim_applyMove
  | applyCas => exact sim_applyCas
  | applyAdd => exact sim_applyAdd
  | lockEnd => exact sim_lockEnd
  | backOut => exact sim_backOut
  | wait => exact sim_wait
  | sharedFast => exact sim_sharedFast
  | sharedLook => exact sim_sharedLook
  | sharedSearch => exact sim_sharedSearch
  | sharedCas => exact sim_sharedCas
  | sharedMark => exact sim_sharedMark hbegun
  | sharedClaim => exact sim_sharedClaim
  | sharedRecheck => exact sim_sharedRecheck
  | search => exact sim_search
  | searchCas => exact sim_searchCas
  | freeSlot => exact sim_freeSlot
  | inline => exact sim_inline
  | wake => exact sim_wake
  | upgradeCas => exact sim_upgradeCas
  | toShared => exact sim_toShared
  | toUpgrade => exact sim_toUpgrade

lemma step_acts {m' : Mem} {p' : Pc} (hok : Ok prio p) (ha : Agree m p)
    (hbegun : prio = false → has m.state kBegunE = false)
    (hs : step prio ch m p = some (m', p')) : Sim prio m p m' p' :=
  (simulated hbegun p hok ha).of_eq hs

end Operations

end Acc.Thread.SharedMutex
