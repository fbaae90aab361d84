import Accelerator.Chain
import Accelerator.SortedSet

namespace Acc.Thread.ConcurrentSkipList

open Function

abbrev Ptr := Nat

abbrev null : Ptr := 0

structure Node (T : Type*) where
  data : T
  height : Nat
  skip : Nat → Ptr := fun _ => null
  isHead : Bool := false
  marked : Bool := false
  fullyLinked : Bool := false

structure SkipList (T : Type*) where
  nodes : Ptr → Node T
  fresh : Ptr
  head : Ptr
  size : Nat := 0

structure Params (T : Type*) where
  lt : T → T → Bool
  maxHeight : Nat
  sizeLimit : Nat → Nat

variable {T : Type*}

section Nodes

variable (nodes : Ptr → Node T)

def modify (n : Ptr) (f : Node T → Node T) : Ptr → Node T := update nodes n (f (nodes n))

def setSkip (n : Ptr) (layer : Nat) (next : Ptr) : Ptr → Node T :=
  modify nodes n fun node => { node with skip := update node.skip layer next }

def setMarkedForRemoval (n : Ptr) : Ptr → Node T := modify nodes n fun node => { node with marked := true }

def setFullyLinked (n : Ptr) : Ptr → Node T := modify nodes n fun node => { node with fullyLinked := true }

end Nodes

def create [Inhabited T] (height : Nat) : SkipList T :=
  { nodes := fun _ => { data := default, height, isHead := true }, fresh := 2, head := 1 }

def getHeight (maxHeight draw : Nat) : Nat := if draw < maxHeight then draw + 1 else maxHeight

section Search

variable (P : Params T) (nodes : Ptr → Node T) (data : T)

def greater (node : Ptr) : Bool := decide (node ≠ null) && P.lt (nodes node).data data

def less (node : Ptr) : Bool := decide (node = null) || P.lt data (nodes node).data

def walk (layer : Nat) : Nat → Ptr → Ptr → Option (Ptr × Ptr)
  | 0, _, _ => none
  | fuel + 1, pred, node =>
    if greater P nodes data node then walk layer fuel node ((nodes node).skip layer)
    else some (pred, node)

structure Found where
  found : Option (Nat × Ptr)
  preds : Nat → Ptr
  succs : Nat → Ptr

def findInsertionPointLoop (fuel : Nat) : Nat → Ptr → Found → Option Found
  | 0, _, r => some r
  | layer + 1, pred, r =>
    match walk P nodes data layer fuel pred ((nodes pred).skip layer) with
    | none => none
    | some (pred, node) =>
      let found :=
        if r.found = none ∧ less P nodes data node = false then some (layer, node) else r.found
      let succ := match found with
        | some (_, foundNode) => foundNode
        | none => node
      findInsertionPointLoop fuel layer pred
        ⟨found, update r.preds layer pred, update r.succs layer succ⟩

def downRight (fuel : Nat) : Nat → Ptr → Ptr → Option (Ptr × Bool)
  | 0, _, node => some (node, false)
  | ht + 1, pred, _ =>
    let node := (nodes pred).skip ht
    if less P nodes data node then downRight fuel ht pred node
    else
      match walk P nodes data ht fuel pred node with
      | none => none
      | some (pred, node) =>
        if less P nodes data node then downRight fuel ht pred node else some (node, true)

def rightDown (fuel : Nat) : Nat → Ptr → Ptr → Option (Ptr × Bool)
  | 0, _, node => some (node, false)
  | layer + 1, pred, _ =>
    match walk P nodes data layer fuel pred ((nodes pred).skip layer) with
    | none => none
    | some (pred, node) =>
      if less P nodes data node then rightDown fuel layer pred node else some (node, true)

end Search

section Operations

variable (P : Params T) (fuel : Nat) (s : SkipList T)

def SkipList.height : Nat := (s.nodes s.head).height

def findInsertionPoint (data : T) : Option Found :=
  findInsertionPointLoop P s.nodes data fuel s.height s.head ⟨none, fun _ => null, fun _ => null⟩

def findNodeDownRight (data : T) : Option (Ptr × Bool) :=
  downRight P s.nodes data fuel s.height s.head null

def findNodeRightDown (data : T) : Option (Ptr × Bool) :=
  rightDown P s.nodes data fuel s.height s.head null

def findNode (data : T) : Option (Ptr × Bool) := findNodeDownRight P fuel s data

def find (data : T) : Option Ptr :=
  (findNode P fuel s data).map fun ret =>
    if ret.2 && !(s.nodes ret.1).marked then ret.1 else null

def skipMarked (nodes : Ptr → Node T) : Nat → Ptr → Option Ptr
  | 0, _ => none
  | fuel + 1, node =>
    if node ≠ null ∧ (nodes node).marked = true then skipMarked nodes fuel ((nodes node).skip 0)
    else some node

def lower_bound (data : T) : Option Ptr :=
  (findNode P fuel s data).bind fun ret => skipMarked s.nodes fuel ret.1

def lockNodesForChange (nodes : Ptr → Node T) (preds succs : Nat → Ptr) (adding : Bool) :
    Nat → Nat → Option Ptr → List Ptr → Option Bool
  | 0, _, _, _ => some true
  | n + 1, layer, prevPred, held =>
    let pred := preds layer
    let succ := succs layer
    let go (held : List Ptr) : Option Bool :=
      if (nodes pred).marked = false ∧ (nodes pred).skip layer = succ ∧
          (adding = true → succ = null ∨ (nodes succ).marked = false) then
        lockNodesForChange nodes preds succs adding n (layer + 1) (some pred) held
      else some false
    if some pred = prevPred then go held
    else if pred ∈ held then none
    else go (pred :: held)

def link (newNode : Ptr) (preds succs : Nat → Ptr) (nodes : Ptr → Node T) : Nat → Ptr → Node T
  | 0 => nodes
  | k + 1 => setSkip (setSkip (link newNode preds succs nodes k) newNode k (succs k)) (preds k) k newNode

def unlink (nodeToDelete : Ptr) (preds : Nat → Ptr) : Nat → (Ptr → Node T) → Ptr → Node T
  | 0, nodes => nodes
  | k + 1, nodes =>
    unlink nodeToDelete preds k (setSkip nodes (preds k) k ((nodes nodeToDelete).skip k))

def growHeight [Inhabited T] (height : Nat) : SkipList T :=
  let oldHead := s.nodes s.head
  if oldHead.height ≥ height then s
  else
    let newHead : Node T :=
      { data := default, height, isHead := oldHead.isHead, marked := oldHead.marked
        fullyLinked := oldHead.fullyLinked
        skip := fun k => if k < oldHead.height then oldHead.skip k else null }
    { s with nodes := setMarkedForRemoval (update s.nodes s.fresh newHead) s.head
             fresh := s.fresh + 1
             head := s.fresh }

def addOrGetData [Inhabited T] (data : T) (draw : Nat) : Nat → Option (SkipList T × Ptr × Nat)
  | 0 => none
  | tries + 1 =>
    match findInsertionPoint P fuel s data with
    | none => none
    | some ⟨some (layer, _), _, succs⟩ =>
      let nodeFound := succs layer
      if (s.nodes nodeFound).marked then addOrGetData data draw tries
      else if (s.nodes nodeFound).fullyLinked then some (s, nodeFound, 0)
      else none
    | some ⟨none, preds, succs⟩ =>
      let nodeHeight := getHeight s.height draw
      match lockNodesForChange s.nodes preds succs true nodeHeight 0 none [] with
      | none => none
      | some false => addOrGetData data draw tries
      | some true =>
        let newNode := s.fresh
        let created := update s.nodes newNode { data, height := nodeHeight }
        let nodes := setFullyLinked (link newNode preds succs created nodeHeight) newNode
        let newSize := s.size + 1
        let s' : SkipList T := { s with nodes, fresh := s.fresh + 1, size := newSize }
        let hgt := s'.height
        let s'' :=
          if hgt < P.maxHeight ∧ newSize > P.sizeLimit hgt then growHeight s' (hgt + 1) else s'
        some (s'', newNode, newSize)

def okToDelete (candidate : Ptr) (layer : Nat) : Bool :=
  (s.nodes candidate).fullyLinked && (s.nodes candidate).height - 1 == layer &&
    !(s.nodes candidate).marked

def removeMarked (data : T) (nodeToDelete : Ptr) (nodeHeight : Nat) :
    Nat → Found → Option (SkipList T)
  | tries, ⟨_, preds, succs⟩ =>
    match lockNodesForChange s.nodes preds succs false nodeHeight 0 none [nodeToDelete], tries with
    | none, _ => none
    | some true, _ =>
      some { s with nodes := unlink nodeToDelete preds nodeHeight s.nodes, size := s.size - 1 }
    | some false, 0 => none
    | some false, tries + 1 =>
      match findInsertionPoint P fuel s data with
      | none => none
      | some r => removeMarked data nodeToDelete nodeHeight tries r

def remove (data : T) (tries : Nat) : Option (SkipList T × Bool) :=
  match findInsertionPoint P fuel s data with
  | none => none
  | some ⟨none, _, _⟩ => some (s, false)
  | some ⟨some (layer, node), preds, succs⟩ =>
    let nodeToDelete := succs layer
    if okToDelete s nodeToDelete layer then
      let marked := { s with nodes := setMarkedForRemoval s.nodes nodeToDelete }
      (removeMarked P fuel marked data nodeToDelete (s.nodes nodeToDelete).height tries
        ⟨some (layer, node), preds, succs⟩).map fun s' => (s', true)
    else some (s, false)

def first : Ptr := (s.nodes s.head).skip 0

def rightmost (nodes : Ptr → Node T) (layer : Nat) : Nat → Ptr → Option Ptr
  | 0, _ => none
  | fuel + 1, pred =>
    let node := (nodes pred).skip layer
    if node ≠ null then rightmost nodes layer fuel node else some pred

def lastLoop (nodes : Ptr → Node T) (fuel : Nat) : Nat → Ptr → Option Ptr
  | 0, pred => some pred
  | layer + 1, pred => (rightmost nodes layer fuel pred).bind (lastLoop nodes fuel layer)

def last : Option Ptr :=
  (lastLoop s.nodes fuel s.height s.head).map fun pred => if pred = s.head then null else pred

end Operations

inductive Op (T : Type*)
  | add (data : T) (draw : Nat)
  | addOrGetData (data : T) (draw : Nat)
  | remove (data : T)
  | find (data : T)
  | lower_bound (data : T)
  | first
  | last
  | size

inductive Result (T : Type*)
  | flag (b : Bool)
  | data (d : Option T)
  | added (d : T) (b : Bool)
  | number (n : Nat)
  deriving DecidableEq

section Interface

variable (P : Params T) (fuel : Nat) (s : SkipList T)

def dataAt (n : Ptr) : Option T := if n = null then none else some (s.nodes n).data

def step [Inhabited T] : Op T → Option (SkipList T × Result T)
  | .add data draw =>
    (addOrGetData P fuel s data draw fuel).map fun r => (r.1, .flag (decide (r.2.2 ≠ 0)))
  | .addOrGetData data draw =>
    (addOrGetData P fuel s data draw fuel).map fun r =>
      (r.1, .added (r.1.nodes r.2.1).data (decide (r.2.2 ≠ 0)))
  | .remove data => (remove P fuel s data fuel).map fun r => (r.1, .flag r.2)
  | .find data => (find P fuel s data).map fun n => (s, .data (dataAt s n))
  | .lower_bound data => (lower_bound P fuel s data).map fun n => (s, .data (dataAt s n))
  | .first => some (s, .data (dataAt s (first s)))
  | .last => (last fuel s).map fun n => (s, .data (dataAt s n))
  | .size => some (s, .number s.size)

def run [Inhabited T] : SkipList T → List (Op T) → Option (SkipList T × List (Result T))
  | s, [] => some (s, [])
  | s, op :: ops =>
    match step P fuel s op with
    | none => none
    | some (s', r) => (run s' ops).map fun rs => (rs.1, r :: rs.2)

end Interface

section Spec

open SortedSet

variable (lt : T → T → Bool) (l : List T)

def specStep : Op T → List T × Result T
  | .add data _ =>
    match SortedSet.find lt data l with
    | some _ => (l, .flag false)
    | none => (insert lt data l, .flag true)
  | .addOrGetData data _ =>
    match SortedSet.find lt data l with
    | some d => (l, .added d false)
    | none => (insert lt data l, .added data true)
  | .remove data => (erase lt data l, .flag (SortedSet.find lt data l).isSome)
  | .find data => (l, .data (SortedSet.find lt data l))
  | .lower_bound data => (l, .data (lowerBound lt data l))
  | .first => (l, .data l.head?)
  | .last => (l, .data l.getLast?)
  | .size => (l, .number l.length)

def specRun : List T → List (Op T) → List T × List (Result T)
  | l, [] => (l, [])
  | l, op :: ops =>
    let r := specStep lt l op
    let rs := specRun r.1 ops
    (rs.1, r.2 :: rs.2)

end Spec

end Acc.Thread.ConcurrentSkipList
