import Mathlib

namespace Acc.Scheduler

open List

structure Node where
  nexts : List Nat := []
  hasPrev : Bool := false
  waitCount : Int := 0
  deriving DecidableEq, Repr

abbrev DAG := List Node

namespace DAG

def nexts (d : DAG) (key : Nat) : List Nat := (d.getD key {}).nexts

def hasPrev (d : DAG) (key : Nat) : Bool := (d.getD key {}).hasPrev

def waitCount (d : DAG) (key : Nat) : Int := (d.getD key {}).waitCount

def add (d : DAG) : Nat × DAG := (d.length, d ++ [({} : Node)])

def dependency (d : DAG) (a b : Nat) : DAG :=
  (d.modify a fun node => { node with nexts := node.nexts ++ [b] }).modify b fun node =>
    { node with waitCount := node.waitCount + 1, hasPrev := true }

def popEdges : List Nat → List Int → List Nat → List Int × List Nat
  | [], targets, keys => (targets, keys)
  | next :: edges, targets, keys =>
    let targets := targets.modify next (· - 1)
    popEdges edges targets (if targets.getD next 0 = 0 then next :: keys else keys)

lemma length_popEdges (edges : List Nat) (targets : List Int) (keys : List Nat) :
    (popEdges edges targets keys).2.length ≤ keys.length + edges.length := by
  induction edges generalizing targets keys with
  | nil => exact Nat.le_refl _
  | cons next edges ih =>
    rw [popEdges, length_cons]
    refine Nat.le_trans (ih _ _) ?_
    split
    · rw [length_cons]
      omega
    · omega

lemma length_flatten_set (nexts : List (List Nat)) (key : Nat) :
    (nexts.set key []).flatten.length + (nexts.getD key []).length = nexts.flatten.length := by
  induction nexts generalizing key with
  | nil => simp
  | cons edges nexts ih =>
    cases key with
    | zero => simp [Nat.add_comm]
    | succ key =>
      have := ih key
      simp only [set_cons_succ, flatten_cons, length_append,
        getD_cons_succ]
      omega

def removeEdges (nexts : List (List Nat)) (targets : List Int) : List Nat → List (List Nat)
  | [] => nexts
  | key :: keys =>
    removeEdges (nexts.set key []) (popEdges (nexts.getD key []).reverse targets keys).1
      (popEdges (nexts.getD key []).reverse targets keys).2
termination_by keys => 2 * nexts.flatten.length + keys.length
decreasing_by
  have hpop := length_popEdges (nexts.getD key []).reverse targets keys
  have hset := length_flatten_set nexts key
  rw [length_reverse] at hpop
  rw [length_cons]
  omega

def countTargets (d : DAG) : List Int :=
  d.foldl (fun targets node =>
    node.nexts.foldl (fun targets key => targets.modify key (· + 1)) targets)
    (replicate d.length 0)

def hasCycle (d : DAG) : Bool :=
  let keys := (range d.length).filter fun key => !hasPrev d key
  (removeEdges (d.map Node.nexts) (countTargets d) keys.reverse).any fun edges => !edges.isEmpty

def linkSource (sourceKey : Nat) (d : DAG) (key : Nat) : DAG :=
  if !hasPrev d key then dependency d sourceKey key else d

def linkSink (sinkKey : Nat) (d : DAG) (key : Nat) : DAG :=
  if (nexts d key).isEmpty then dependency d key sinkKey else d

def link (sourceKey sinkKey : Nat) (d : DAG) (key : Nat) : DAG :=
  linkSink sinkKey (linkSource sourceKey d key) key

def prepare (d : DAG) : Except String (Nat × DAG) :=
  if hasCycle d then .error "Cycle in DAG graph"
  else
    let (sourceKey, d) := add d
    let (sinkKey, d) := add d
    .ok (sourceKey, (range (d.length - 2)).foldl (link sourceKey sinkKey) d)

end DAG

inductive Task
  | scheduling (rest : List Nat)
  | adding (key : Nat) (rest : List Nat)
  | queued (key : Nat)
  | running (key : Nat)
  deriving DecidableEq, Repr

inductive Event
  | began (key : Nat)
  | ended (key : Nat)
  deriving DecidableEq, Repr

def Event.key : Event → Nat
  | .began key => key
  | .ended key => key

structure Running where
  waitCount : Nat → Int
  tasks : List Task

inductive Step (d : DAG) : Running → List Event → Running → Prop
  | decrement {s : Running} {l l' : List Task} {key : Nat} {rest : List Nat}
      (htasks : s.tasks = l ++ .scheduling (key :: rest) :: l')
      (hcount : s.waitCount key - 1 ≠ 0) :
      Step d s []
        { waitCount := Function.update s.waitCount key (s.waitCount key - 1)
          tasks := l ++ .scheduling rest :: l' }
  | release {s : Running} {l l' : List Task} {key : Nat} {rest : List Nat}
      (htasks : s.tasks = l ++ .scheduling (key :: rest) :: l')
      (hcount : s.waitCount key - 1 = 0) :
      Step d s []
        { waitCount := Function.update s.waitCount key (s.waitCount key - 1)
          tasks := l ++ .adding key rest :: l' }
  | submit {s : Running} {l l' : List Task} {key : Nat} {rest : List Nat}
      (htasks : s.tasks = l ++ .adding key rest :: l') :
      Step d s [] { s with tasks := l ++ .scheduling rest :: .queued key :: l' }
  | begin {s : Running} {l l' : List Task} {key : Nat}
      (htasks : s.tasks = l ++ .queued key :: l') :
      Step d s [.began key] { s with tasks := l ++ .running key :: l' }
  | finish {s : Running} {l l' : List Task} {key : Nat}
      (htasks : s.tasks = l ++ .running key :: l') :
      Step d s [.ended key] { s with tasks := l ++ .scheduling (d.nexts key) :: l' }
  | leave {s : Running} {l l' : List Task} (htasks : s.tasks = l ++ .scheduling [] :: l') :
      Step d s [] { s with tasks := l ++ l' }

def start (d : DAG) (sourceKey : Nat) : Running :=
  { waitCount := d.waitCount, tasks := [.scheduling (d.nexts sourceKey)] }

inductive Run (d : DAG) (sourceKey : Nat) : Nat → List Event → Running → Prop
  | start : Run d sourceKey 0 [] (start d sourceKey)
  | next {n : Nat} {tr es : List Event} {s s' : Running} (h : Run d sourceKey n tr s)
      (hstep : Step d s es s') : Run d sourceKey (n + 1) (tr ++ es) s'

end Acc.Scheduler
