import Mathlib

namespace Acc.Thread.ProducerConsumerQueue

open Function Nat List
open BitVec hiding append_assoc getElem?_eq_getElem lt_trichotomy

abbrev Word := BitVec 32

inductive Record (T : Type*)
  | raw
  | live (value : T)
  | moved

inductive Producer (T : Type*)
  | idle
  | loaded (value : T) (currentWrite : Word) (seen : Nat)
  | construct (value : T) (currentWrite nextRecord : Word)
  | store (value : T) (nextRecord : Word)

inductive Consumer (T : Type*)
  | idle (front : Option Word)
  | readLoaded (currentRead : Word) (seen : Nat)
  | readMove (currentRead : Word)
  | readDestroy (currentRead : Word) (record : T)
  | readStore (currentRead : Word) (record : T)
  | frontLoaded (currentRead : Word) (seen : Nat)
  | popLoaded (currentRead : Word)
  | popDestroy (currentRead : Word)
  | popStore (currentRead : Word) (value : T)
  | undefined

inductive Op
  | read
  | frontPtr
  | popFront

structure Mem (T : Type*) where
  records : Word → Record T
  readIndex : Word := 0
  writeIndex : Word := 0
  written : List T := []
  taken : List T := []
  failedWrites : List (Nat × Nat) := []
  failedReads : List (Nat × Nat) := []

structure State (T : Type*) where
  mem : Mem T
  producer : Producer T
  consumer : Consumer T

variable {T : Type*}

def start : State T := ⟨{ records := fun _ => .raw }, .idle, .idle none⟩

def Mem.unread (m : Mem T) : Nat := m.written.length - m.taken.length

section Steps

variable (size : Word)

def next (current : Word) : Word := if current + 1 = size then 0 else current + 1

def producerStep (value : T) (m : Mem T) : Producer T → Mem T × Producer T
  | .idle => (m, .loaded value m.writeIndex m.unread)
  | .loaded value currentWrite seen =>
    if next size currentWrite ≠ m.readIndex then
      (m, .construct value currentWrite (next size currentWrite))
    else ({ m with failedWrites := m.failedWrites ++ [(seen, m.unread)] }, .idle)
  | .construct value currentWrite nextRecord =>
    ({ m with records := Function.update m.records currentWrite (.live value) },
      .store value nextRecord)
  | .store value nextRecord =>
    ({ m with writeIndex := nextRecord, written := m.written ++ [value] }, .idle)

def call (m : Mem T) : Op → Option (Consumer T)
  | .read => some (.readLoaded m.readIndex m.unread)
  | .frontPtr => some (.frontLoaded m.readIndex m.unread)
  | .popFront => if m.readIndex ≠ m.writeIndex then some (.popLoaded m.readIndex) else none

def consumerStep (op : Op) (m : Mem T) : Consumer T → Option (Mem T × Consumer T)
  | .idle _ => (call m op).map fun c => (m, c)
  | .readLoaded currentRead seen =>
    if currentRead = m.writeIndex then
      some ({ m with failedReads := m.failedReads ++ [(seen, m.unread)] }, .idle none)
    else some (m, .readMove currentRead)
  | .readMove currentRead =>
    match m.records currentRead with
    | .live value =>
      some ({ m with records := Function.update m.records currentRead .moved },
        .readDestroy currentRead value)
    | _ => some (m, .undefined)
  | .readDestroy currentRead record =>
    match m.records currentRead with
    | .raw => some (m, .undefined)
    | _ =>
      some ({ m with records := Function.update m.records currentRead .raw },
        .readStore currentRead record)
  | .readStore currentRead record =>
    some ({ m with readIndex := next size currentRead, taken := m.taken ++ [record] }, .idle none)
  | .frontLoaded currentRead seen =>
    if currentRead = m.writeIndex then
      some ({ m with failedReads := m.failedReads ++ [(seen, m.unread)] }, .idle none)
    else some (m, .idle (some currentRead))
  | .popLoaded currentRead =>
    some (m, if currentRead ≠ m.writeIndex then .popDestroy currentRead else .undefined)
  | .popDestroy currentRead =>
    match m.records currentRead with
    | .live value =>
      some ({ m with records := Function.update m.records currentRead .raw },
        .popStore currentRead value)
    | _ => some (m, .undefined)
  | .popStore currentRead value =>
    some ({ m with readIndex := next size currentRead, taken := m.taken ++ [value] }, .idle none)
  | .undefined => none

inductive Step : State T → State T → Prop
  | producer {s : State T} (value : T) :
      Step s { s with mem := (producerStep size value s.mem s.producer).1,
                      producer := (producerStep size value s.mem s.producer).2 }
  | consumer {s : State T} (op : Op) {m : Mem T} {c : Consumer T}
      (h : consumerStep size op s.mem s.consumer = some (m, c)) :
      Step s { s with mem := m, consumer := c }

def Runs : State T → State T → Prop := Relation.ReflTransGen (Step size)

def isEmpty (m : Mem T) : Bool := decide (m.readIndex = m.writeIndex)

def isFull (m : Mem T) : Bool := decide (next size m.writeIndex = m.readIndex)

def sizeGuess (m : Mem T) : BitVec 64 :=
  let ret := m.writeIndex - m.readIndex
  (if ret.toInt < 0 then ret + size else ret).signExtend 64

end Steps

section Slots

variable {size : Word} {a b k : Nat}

def index (size : Word) (k : Nat) : Word := BitVec.ofNat 32 (k % size.toNat)

lemma toNat_index (hsize : 2 ≤ size.toNat) : (index size k).toNat = k % size.toNat := by
  have hlt : k % size.toNat < size.toNat := mod_lt k (by omega)
  exact mod_eq_of_lt (hlt.trans size.isLt)

lemma next_index (hsize : 2 ≤ size.toNat) : next size (index size k) = index size (k + 1) := by
  have hlt : k % size.toNat < size.toNat := mod_lt k (by omega)
  have hsum : (index size k + 1).toNat = k % size.toNat + 1 := by
    rw [toNat_add, toNat_index hsize]
    exact mod_eq_of_lt (lt_of_le_of_lt hlt size.isLt)
  have hsucc : (k + 1) % size.toNat = (k % size.toNat + 1) % size.toNat := by
    rw [mod_add_mod]
  apply eq_of_toNat_eq
  rw [toNat_index hsize, hsucc, next]
  split
  · rename_i hwrap
    rw [← hsum, hwrap, mod_self]
    rfl
  rename_i hne
  have hne' : k % size.toNat + 1 ≠ size.toNat := by
    rw [← hsum]
    exact fun h => hne (eq_of_toNat_eq h)
  have hmod : (k % size.toNat + 1) % size.toNat = k % size.toNat + 1 := mod_eq_of_lt (by omega)
  rw [hsum, hmod]

lemma index_injective (hsize : 2 ≤ size.toNat) (hab : a ≤ b) (hb : b < a + size.toNat)
    (h : index size a = index size b) : a = b := by
  have hmod : a % size.toNat = b % size.toNat := by
    simp [← toNat_index hsize, h]
  have hdvd : size.toNat ∣ b - a := (modEq_iff_dvd' hab).mp hmod
  have hzero : b - a = 0 := eq_zero_of_dvd_of_lt hdvd (by omega)
  omega

lemma index_window : index size (k + size.toNat) = index size k := by
  rw [index, add_mod_right, index]

end Slots

section Invariant

variable {size : Word} {s s' : State T}

def Consumer.front : Consumer T → Record T → Record T
  | .readDestroy _ _, _ => .moved
  | .readStore _ _, _ => .raw
  | .popStore _ _, _ => .raw
  | _, record => record

def Producer.back : Producer T → Record T
  | .store value _ => .live value
  | _ => .raw

def expected (s : State T) (i : Nat) : Record T :=
  match s.mem.written[i]? with
  | some value => if i = s.mem.taken.length then s.consumer.front (.live value) else .live value
  | none => if i = s.mem.written.length then s.producer.back else .raw

def ProducerOk (size : Word) (m : Mem T) : Producer T → Prop
  | .idle => True
  | .loaded _ currentWrite seen =>
    currentWrite = index size m.written.length ∧ m.unread ≤ seen ∧ seen + 1 ≤ size.toNat
  | .construct _ currentWrite nextRecord =>
    currentWrite = index size m.written.length ∧
      nextRecord = index size (m.written.length + 1) ∧
      m.written.length + 1 < m.taken.length + size.toNat
  | .store _ nextRecord =>
    nextRecord = index size (m.written.length + 1) ∧
      m.written.length + 1 < m.taken.length + size.toNat

def ConsumerOk (size : Word) (m : Mem T) : Consumer T → Prop
  | .idle none => True
  | .idle (some slot) =>
    slot = index size m.taken.length ∧ m.taken.length < m.written.length
  | .readLoaded currentRead seen =>
    currentRead = index size m.taken.length ∧ seen ≤ m.unread
  | .readMove currentRead =>
    currentRead = index size m.taken.length ∧ m.taken.length < m.written.length
  | .readDestroy currentRead record =>
    currentRead = index size m.taken.length ∧ m.written[m.taken.length]? = some record
  | .readStore currentRead record =>
    currentRead = index size m.taken.length ∧ m.written[m.taken.length]? = some record
  | .frontLoaded currentRead seen =>
    currentRead = index size m.taken.length ∧ seen ≤ m.unread
  | .popLoaded currentRead =>
    currentRead = index size m.taken.length ∧ m.taken.length < m.written.length
  | .popDestroy currentRead =>
    currentRead = index size m.taken.length ∧ m.taken.length < m.written.length
  | .popStore currentRead value =>
    currentRead = index size m.taken.length ∧ m.written[m.taken.length]? = some value
  | .undefined => False

structure Inv (size : Word) (s : State T) : Prop where
  readIndex : s.mem.readIndex = index size s.mem.taken.length
  writeIndex : s.mem.writeIndex = index size s.mem.written.length
  fifo : s.mem.taken <+: s.mem.written
  room : s.mem.written.length < s.mem.taken.length + size.toNat
  records : ∀ i, s.mem.taken.length ≤ i → i < s.mem.taken.length + size.toNat →
    s.mem.records (index size i) = expected s i
  producer : ProducerOk size s.mem s.producer
  consumer : ConsumerOk size s.mem s.consumer
  failedWrites : ∀ f ∈ s.mem.failedWrites, f = (size.toNat - 1, size.toNat - 1)
  failedReads : ∀ f ∈ s.mem.failedReads, f = (0, 0)

lemma Inv.start (hsize : 2 ≤ size.toNat) : Inv size (start : State T) := by
  refine ⟨?_, ?_, nil_prefix, ?_, fun i _ _ => ?_, trivial, trivial, nofun, nofun⟩
  · show (0 : Word) = BitVec.ofNat 32 (0 % size.toNat)
    rfl
  · show (0 : Word) = BitVec.ofNat 32 (0 % size.toNat)
    rfl
  · show 0 < 0 + size.toNat
    omega
  · show Record.raw = if i = 0 then Record.raw else Record.raw
    rw [ite_self]

lemma Inv.empty (h : Inv size s) (hsize : 2 ≤ size.toNat) :
    s.mem.readIndex = s.mem.writeIndex ↔ s.mem.taken.length = s.mem.written.length := by
  have hle := h.fifo.length_le
  rw [h.readIndex, h.writeIndex]
  exact ⟨index_injective hsize hle h.room, fun h => by rw [h]⟩

variable {m m' : Mem T} {p : Producer T} {c : Consumer T}

lemma expected_congr (hwritten : m.written = s.mem.written) (htaken : m.taken = s.mem.taken)
    (hback : p.back = s.producer.back) (hfront : ∀ r, c.front r = s.consumer.front r) (i : Nat) :
    expected ⟨m, p, c⟩ i = expected s i := by
  simp only [expected, hwritten, htaken, hback, hfront]

lemma Inv.look (h : Inv size s)
    (hrecords : m.records = s.mem.records) (hreadIndex : m.readIndex = s.mem.readIndex)
    (hwriteIndex : m.writeIndex = s.mem.writeIndex) (hwritten : m.written = s.mem.written)
    (htaken : m.taken = s.mem.taken) (hback : p.back = s.producer.back)
    (hfront : ∀ r, c.front r = s.consumer.front r) (hp : ProducerOk size m p)
    (hc : ConsumerOk size m c)
    (hwrites : ∀ f ∈ m.failedWrites, f = (size.toNat - 1, size.toNat - 1))
    (hreads : ∀ f ∈ m.failedReads, f = (0, 0)) : Inv size ⟨m, p, c⟩ := by
  refine ⟨?_, ?_, ?_, ?_, fun i hi hi' => ?_, hp, hc, hwrites, hreads⟩
  · rw [hreadIndex, htaken]
    exact h.readIndex
  · rw [hwriteIndex, hwritten]
    exact h.writeIndex
  · rw [hwritten, htaken]
    exact h.fifo
  · rw [hwritten, htaken]
    exact h.room
  · rw [expected_congr hwritten htaken hback hfront, hrecords]
    exact h.records i (htaken ▸ hi) (htaken ▸ hi')

lemma ConsumerOk.append (h : ConsumerOk size m c) (value : T)
    (hwritten : m'.written = m.written ++ [value]) (htaken : m'.taken = m.taken) :
    ConsumerOk size m' c := by
  have hlength : m'.written.length = m.written.length + 1 := by
    simp [hwritten]
  have hunread : m.unread ≤ m'.unread := by
    rw [Mem.unread, Mem.unread, htaken, hlength]
    omega
  have hlt : m.taken.length < m.written.length → m'.taken.length < m'.written.length := by
    rw [htaken, hlength]
    exact fun h => h.trans (lt_succ_self _)
  have hget : ∀ {v : T}, m.written[m.taken.length]? = some v →
      m'.written[m'.taken.length]? = some v := by
    intro v hv
    obtain ⟨hi, -⟩ := List.getElem?_eq_some_iff.mp hv
    rw [htaken, hwritten, getElem?_append_left hi]
    exact hv
  have hindex : ∀ {w : Word}, w = index size m.taken.length → w = index size m'.taken.length := by
    intro w hw
    rw [htaken]
    exact hw
  cases c with
  | idle front =>
    cases front with
    | none => trivial
    | some slot => exact ⟨hindex h.1, hlt h.2⟩
  | readLoaded | frontLoaded => exact ⟨hindex h.1, h.2.trans hunread⟩
  | readMove | popLoaded | popDestroy => exact ⟨hindex h.1, hlt h.2⟩
  | readDestroy | readStore | popStore => exact ⟨hindex h.1, hget h.2⟩
  | undefined => exact h

lemma ConsumerOk.front_of_empty (h : ConsumerOk size m c)
    (hempty : m.taken.length = m.written.length) (r : Record T) : c.front r = r := by
  have hnone : ∀ {v : T}, m.written[m.taken.length]? ≠ some v := by
    intro v hv
    obtain ⟨hi, -⟩ := List.getElem?_eq_some_iff.mp hv
    omega
  cases c with
  | readDestroy | readStore | popStore => exact absurd h.2 hnone
  | _ => rfl

variable {value : T}

lemma Inv.construct (h : Inv size s) (hsize : 2 ≤ size.toNat)
    {currentWrite nextRecord : Word} (hp : s.producer = .construct value currentWrite nextRecord) :
    Inv size ⟨{ s.mem with records := update s.mem.records currentWrite (.live value) },
      .store value nextRecord, s.consumer⟩ := by
  have hok := h.producer
  rw [hp] at hok
  obtain ⟨rfl, hnext, hroom⟩ := hok
  have hle := h.fifo.length_le
  refine ⟨h.readIndex, h.writeIndex, h.fifo, h.room, fun i hi hi' => ?_, ⟨hnext, hroom⟩,
    h.consumer, h.failedWrites, h.failedReads⟩
  replace hi : s.mem.taken.length ≤ i := hi
  replace hi' : i < s.mem.taken.length + size.toNat := hi'
  show update s.mem.records (index size s.mem.written.length) (.live value) (index size i)
    = _
  by_cases hlast : i = s.mem.written.length
  · rw [hlast, update_self, expected]
    simp [Producer.back]
  have hne : index size i ≠ index size s.mem.written.length := by
    intro heq
    rcases Nat.le_total i s.mem.written.length with hle' | hle'
    · exact hlast (index_injective hsize hle' (by omega) heq)
    · exact hlast (index_injective hsize hle' (by omega) heq.symm).symm
  rw [update_of_ne hne, h.records i hi hi', expected, expected]
  cases s.mem.written[i]? with
  | some v => rfl
  | none => simp only [if_neg hlast]

lemma Inv.store (h : Inv size s) {nextRecord : Word} (hp : s.producer = .store value nextRecord) :
    Inv size ⟨{ s.mem with writeIndex := nextRecord, written := s.mem.written ++ [value] }, .idle,
      s.consumer⟩ := by
  have hok := h.producer
  rw [hp] at hok
  obtain ⟨hnext, hroom⟩ := hok
  have hlength : (s.mem.written ++ [value]).length = s.mem.written.length + 1 := by
    simp
  refine ⟨h.readIndex, ?_, ?_, ?_, fun i hi hi' => ?_, trivial,
    h.consumer.append value rfl rfl, h.failedWrites, h.failedReads⟩
  · show nextRecord = index size (s.mem.written ++ [value]).length
    rw [hlength]
    exact hnext
  · exact h.fifo.trans (prefix_append _ _)
  · show (s.mem.written ++ [value]).length < _
    rw [hlength]
    exact hroom
  have hold := h.records i hi hi'
  rw [hold, expected, expected]
  show _ = match (s.mem.written ++ [value])[i]? with
    | some v => if i = s.mem.taken.length then s.consumer.front (.live v) else .live v
    | none => if i = (s.mem.written ++ [value]).length then .raw else .raw
  rcases lt_trichotomy i s.mem.written.length with hlt | heq | hgt
  · rw [getElem?_append_left hlt, List.getElem?_eq_getElem hlt]
  · rw [heq, getElem?_concat_length, List.getElem?_eq_none le_rfl, hp]
    show (if s.mem.written.length = s.mem.written.length then Record.live value else .raw)
      = if s.mem.written.length = s.mem.taken.length then s.consumer.front (.live value)
        else .live value
    rw [if_pos rfl]
    split
    · rename_i hempty
      exact (h.consumer.front_of_empty hempty.symm _).symm
    · rfl
  · rw [List.getElem?_eq_none hgt.le, List.getElem?_eq_none (by rw [hlength]; exact hgt), ite_self]
    exact if_neg hgt.ne'

lemma Inv.full (h : Inv size s) (hsize : 2 ≤ size.toNat)
    (hfull : index size (s.mem.written.length + 1) = s.mem.readIndex) :
    s.mem.unread = size.toNat - 1 := by
  have hle := h.fifo.length_le
  have hroom := h.room
  rw [h.readIndex] at hfull
  have hne : ¬ s.mem.written.length + 1 < s.mem.taken.length + size.toNat := by
    intro hlt
    have := index_injective hsize (by omega) hlt hfull.symm
    omega
  rw [Mem.unread]
  omega

lemma Inv.producerStep (h : Inv size s) (hsize : 2 ≤ size.toNat) (value : T) :
    Inv size ⟨(producerStep size value s.mem s.producer).1,
      (producerStep size value s.mem s.producer).2, s.consumer⟩ := by
  have hroom := h.room
  have hok := h.producer
  cases hp : s.producer with
  | idle =>
    refine h.look rfl rfl rfl rfl rfl (by rw [hp]; rfl) (fun _ => rfl)
      ⟨h.writeIndex, le_rfl, ?_⟩ h.consumer h.failedWrites h.failedReads
    rw [Mem.unread]
    omega
  | loaded value currentWrite seen =>
    rw [hp] at hok
    obtain ⟨rfl, hseen, hseen'⟩ := hok
    rw [ProducerConsumerQueue.producerStep, next_index hsize]
    split
    · rename_i hne
      refine h.look rfl rfl rfl rfl rfl (by rw [hp]; rfl) (fun _ => rfl) ⟨rfl, rfl, ?_⟩ h.consumer
        h.failedWrites h.failedReads
      rw [h.readIndex] at hne
      show s.mem.written.length + 1 < s.mem.taken.length + size.toNat
      by_contra hge
      have heq : s.mem.written.length + 1 = s.mem.taken.length + size.toNat := by omega
      rw [heq, index_window] at hne
      exact hne rfl
    rename_i heq
    have hfull := h.full hsize (not_not.mp heq)
    refine h.look rfl rfl rfl rfl rfl (by rw [hp]; rfl) (fun _ => rfl) trivial
      h.consumer (fun f hf => ?_) h.failedReads
    rcases mem_append.mp hf with hf | hf
    · exact h.failedWrites f hf
    · rw [mem_singleton.mp hf, hfull]
      have : seen = size.toNat - 1 := by omega
      rw [this]
  | construct value currentWrite nextRecord => exact h.construct hsize hp
  | store value nextRecord => exact h.store hp

lemma ProducerOk.append (h : ProducerOk size m p) (value : T)
    (hwritten : m'.written = m.written) (htaken : m'.taken = m.taken ++ [value]) :
    ProducerOk size m' p := by
  have hlength : m'.taken.length = m.taken.length + 1 := by
    simp [htaken]
  have hunread : m'.unread ≤ m.unread := by
    rw [Mem.unread, Mem.unread, hwritten, hlength]
    omega
  cases p with
  | idle => trivial
  | loaded => exact ⟨hwritten ▸ h.1, hunread.trans h.2.1, h.2.2⟩
  | construct =>
    refine ⟨hwritten ▸ h.1, hwritten ▸ h.2.1, ?_⟩
    have := h.2.2
    rw [hwritten, hlength]
    omega
  | store =>
    refine ⟨hwritten ▸ h.1, ?_⟩
    have := h.2
    rw [hwritten, hlength]
    omega

lemma Inv.front (h : Inv size s) (hsize : 2 ≤ size.toNat)
    (hlt : s.mem.taken.length < s.mem.written.length) : ∃ value,
      s.mem.written[s.mem.taken.length]? = some value ∧
        s.mem.records (index size s.mem.taken.length) = s.consumer.front (.live value) := by
  refine ⟨_, List.getElem?_eq_getElem hlt, ?_⟩
  rw [h.records _ le_rfl (by omega), expected, List.getElem?_eq_getElem hlt]
  exact if_pos rfl

lemma Inv.touch (h : Inv size s) (hsize : 2 ≤ size.toNat) {r : Record T}
    (hlt : s.mem.taken.length < s.mem.written.length) (hfront : ∀ old, c.front old = r)
    (hc : ConsumerOk size s.mem c) : Inv size
      ⟨{ s.mem with records := update s.mem.records (index size s.mem.taken.length) r },
        s.producer, c⟩ := by
  refine ⟨h.readIndex, h.writeIndex, h.fifo, h.room, fun i hi hi' => ?_, h.producer, hc,
    h.failedWrites, h.failedReads⟩
  show update s.mem.records (index size s.mem.taken.length) r (index size i) = _
  by_cases hfirst : i = s.mem.taken.length
  · rw [hfirst, update_self, expected]
    rw [List.getElem?_eq_getElem hlt]
    exact ((if_pos rfl).trans (hfront _)).symm
  have hne : index size i ≠ index size s.mem.taken.length :=
    fun heq => hfirst (index_injective hsize hi hi' heq.symm).symm
  rw [update_of_ne hne, h.records i hi hi', expected, expected]
  cases s.mem.written[i]? with
  | some v => simp only [if_neg hfirst]
  | none => rfl

lemma concat_prefix {taken written : List T} (h : taken <+: written)
    (hvalue : written[taken.length]? = some value) : taken ++ [value] <+: written := by
  obtain ⟨rest, rfl⟩ := h
  rw [getElem?_append_right le_rfl, Nat.sub_self] at hvalue
  cases rest with
  | nil => cases hvalue
  | cons v rest =>
    cases hvalue
    exact ⟨rest, by simp⟩

lemma Inv.take (h : Inv size s) (hsize : 2 ≤ size.toNat)
    (hvalue : s.mem.written[s.mem.taken.length]? = some value)
    (hraw : ∀ r, s.consumer.front r = .raw) :
    Inv size ⟨{ s.mem with readIndex := next size (index size s.mem.taken.length),
                           taken := s.mem.taken ++ [value] }, s.producer, .idle none⟩ := by
  have hlength : (s.mem.taken ++ [value]).length = s.mem.taken.length + 1 := by
    simp
  have hroom := h.room
  refine ⟨?_, h.writeIndex, concat_prefix h.fifo hvalue, ?_, fun i hi hi' => ?_,
    h.producer.append value rfl rfl, trivial, h.failedWrites, h.failedReads⟩
  · show next size _ = index size (s.mem.taken ++ [value]).length
    rw [hlength]
    exact next_index hsize
  · show s.mem.written.length < (s.mem.taken ++ [value]).length + size.toNat
    omega
  replace hi : (s.mem.taken ++ [value]).length ≤ i := hi
  replace hi' : i < (s.mem.taken ++ [value]).length + size.toNat := hi'
  have hnew : expected ⟨{ s.mem with readIndex := next size (index size s.mem.taken.length),
                                     taken := s.mem.taken ++ [value] }, s.producer, .idle none⟩ i
      = match s.mem.written[i]? with
        | some v => .live v
        | none => if i = s.mem.written.length then s.producer.back else .raw := by
    show (match s.mem.written[i]? with
      | some v => if i = (s.mem.taken ++ [value]).length then Record.live v else .live v
      | none => _) = _
    simp only [ite_self]
  rw [hnew]
  by_cases hlast : i = s.mem.taken.length + size.toNat
  · -- the slot that has just been given free
    have hold := h.records s.mem.taken.length le_rfl (by omega)
    rw [expected, hvalue] at hold
    rw [hlast, index_window, hold, List.getElem?_eq_none (by omega)]
    show (if s.mem.taken.length = s.mem.taken.length then s.consumer.front (.live value) else _) = _
    rw [if_pos rfl, hraw]
    exact (if_neg (by omega)).symm
  rw [h.records i (by omega) (by omega), expected]
  cases s.mem.written[i]? with
  | some v => exact if_neg (by omega)
  | none => rfl

lemma Inv.nothing (h : Inv size s) (hsize : 2 ≤ size.toNat) {seen : Nat} (hseen : seen ≤ s.mem.unread)
    (hempty : index size s.mem.taken.length = s.mem.writeIndex)
    (hfront : ∀ r, s.consumer.front r = r) :
    Inv size ⟨{ s.mem with failedReads := s.mem.failedReads ++ [(seen, s.mem.unread)] }, s.producer,
      .idle none⟩ := by
  have hzero : s.mem.unread = 0 := by
    rw [← h.readIndex] at hempty
    have := (h.empty hsize).mp hempty
    rw [Mem.unread]
    omega
  refine h.look rfl rfl rfl rfl rfl rfl (fun r => (hfront r).symm) h.producer trivial h.failedWrites
    fun f hf => ?_
  rcases mem_append.mp hf with hf | hf
  · exact h.failedReads f hf
  · rw [mem_singleton.mp hf, hzero]
    have : seen = 0 := by omega
    rw [this]

lemma Inv.something (h : Inv size s) (hsize : 2 ≤ size.toNat)
    (hne : index size s.mem.taken.length ≠ s.mem.writeIndex) :
    s.mem.taken.length < s.mem.written.length := by
  refine lt_of_le_of_ne h.fifo.length_le fun heq => hne ?_
  rw [← h.readIndex]
  exact (h.empty hsize).mpr heq

lemma Inv.call (h : Inv size s) (hsize : 2 ≤ size.toNat) {op : Op} (hs : call s.mem op = some c) :
    ConsumerOk size s.mem c ∧ ∀ r, c.front r = r := by
  cases op with
  | read | frontPtr =>
    cases hs
    exact ⟨⟨h.readIndex, le_rfl⟩, fun _ => rfl⟩
  | popFront =>
    simp only [ProducerConsumerQueue.call] at hs
    split at hs
    · rename_i hne
      cases hs
      rw [h.readIndex] at hne
      exact ⟨⟨h.readIndex, h.something hsize hne⟩, fun _ => rfl⟩
    · cases hs

lemma Inv.consumerStep (h : Inv size s) (hsize : 2 ≤ size.toNat) {op : Op} (hs : consumerStep size op s.mem s.consumer = some (m, c)) :
    Inv size ⟨m, s.producer, c⟩ := by
  have hok := h.consumer
  cases hc : s.consumer with
  | idle front =>
    rw [hc] at hs
    obtain ⟨c', hcall, heq⟩ := Option.map_eq_some_iff.mp hs
    cases heq
    obtain ⟨hok', hfront⟩ := h.call hsize hcall
    exact h.look rfl rfl rfl rfl rfl rfl (fun r => by rw [hfront, hc]; rfl) h.producer hok'
      h.failedWrites h.failedReads
  | readLoaded currentRead seen | frontLoaded currentRead seen =>
    rw [hc] at hs hok
    obtain ⟨rfl, hseen⟩ := hok
    simp only [ProducerConsumerQueue.consumerStep] at hs
    split at hs
    · rename_i hempty
      cases hs
      exact h.nothing hsize hseen hempty fun _ => by rw [hc]; rfl
    rename_i hne
    cases hs
    exact h.look rfl rfl rfl rfl rfl rfl (fun _ => by rw [hc]; rfl) h.producer
      ⟨rfl, h.something hsize hne⟩ h.failedWrites h.failedReads
  | readMove currentRead | popDestroy currentRead =>
    rw [hc] at hs hok
    obtain ⟨rfl, hlt⟩ := hok
    obtain ⟨value, hvalue, hrecord⟩ := h.front hsize hlt
    rw [hc] at hrecord
    simp only [ProducerConsumerQueue.consumerStep, hrecord, Consumer.front] at hs
    cases hs
    exact h.touch hsize hlt (fun _ => rfl) ⟨rfl, hvalue⟩
  | readDestroy currentRead record =>
    rw [hc] at hs hok
    obtain ⟨rfl, hvalue⟩ := hok
    obtain ⟨hlt, -⟩ := List.getElem?_eq_some_iff.mp hvalue
    obtain ⟨value, -, hrecord⟩ := h.front hsize hlt
    rw [hc] at hrecord
    simp only [ProducerConsumerQueue.consumerStep, hrecord, Consumer.front] at hs
    cases hs
    exact h.touch hsize hlt (fun _ => rfl) ⟨rfl, hvalue⟩
  | readStore currentRead record | popStore currentRead value =>
    rw [hc] at hs hok
    obtain ⟨rfl, hvalue⟩ := hok
    cases hs
    exact h.take hsize hvalue fun _ => by rw [hc]; rfl
  | popLoaded currentRead =>
    rw [hc] at hs hok
    obtain ⟨rfl, hlt⟩ := hok
    have hne : index size s.mem.taken.length ≠ s.mem.writeIndex := by
      intro heq
      rw [← h.readIndex] at heq
      exact absurd ((h.empty hsize).mp heq) hlt.ne
    simp only [ProducerConsumerQueue.consumerStep, if_pos hne] at hs
    cases hs
    exact h.look rfl rfl rfl rfl rfl rfl (fun _ => by rw [hc]; rfl) h.producer ⟨rfl, hlt⟩
      h.failedWrites h.failedReads
  | undefined =>
    rw [hc] at hs
    cases hs

lemma Inv.step (h : Inv size s) (hsize : 2 ≤ size.toNat) (hstep : Step size s s') :
    Inv size s' := by
  cases hstep with
  | producer value => exact h.producerStep hsize value
  | consumer op hs => exact h.consumerStep hsize hs

lemma inv_of_runs (hsize : 2 ≤ size.toNat) (h : Runs size start s) : Inv size s := by
  induction h with
  | refl => exact .start hsize
  | tail _ hstep ih => exact ih.step hsize hstep

lemma toNat_signExtend {x : Word} (h : x.toNat < 2 ^ 31) : (x.signExtend 64).toNat = x.toNat := by
  have hmsb : x.msb = false := by
    rw [msb_eq_decide, decide_eq_false_iff_not]
    omega
  rw [signExtend_eq_setWidth_of_msb_false hmsb, toNat_setWidth]
  exact mod_eq_of_lt (by omega)

lemma Inv.difference (h : Inv size s) (hsize : 2 ≤ size.toNat) :
    s.mem.writeIndex.toNat = s.mem.readIndex.toNat + s.mem.unread ∨
      s.mem.writeIndex.toNat + size.toNat = s.mem.readIndex.toNat + s.mem.unread := by
  have hle := h.fifo.length_le
  have hroom := h.room
  have hpos : 0 < size.toNat := by omega
  have hread : s.mem.readIndex.toNat = s.mem.taken.length % size.toNat := by
    rw [h.readIndex, toNat_index hsize]
  have hwrite : s.mem.writeIndex.toNat
      = (s.mem.readIndex.toNat + s.mem.unread) % size.toNat := by
    rw [h.writeIndex, toNat_index hsize, hread, mod_add_mod, Mem.unread]
    congr 1
    omega
  have hlt : s.mem.readIndex.toNat < size.toNat := by
    rw [hread]
    exact mod_lt _ hpos
  have hunread : s.mem.unread < size.toNat := by
    rw [Mem.unread]
    omega
  by_cases hwrap : s.mem.readIndex.toNat + s.mem.unread < size.toNat
  · exact .inl (hwrite.trans (mod_eq_of_lt hwrap))
  · refine .inr ?_
    rw [hwrite, mod_eq_sub_mod (by omega), mod_eq_of_lt (by omega)]
    omega

lemma Inv.sizeGuess (h : Inv size s) (hsize : 2 ≤ size.toNat) (hsize' : size.toNat < 2 ^ 31) :
    (sizeGuess size s.mem).toNat = s.mem.unread := by
  have hroom := h.room
  have hunread : s.mem.unread < size.toNat := by
    rw [Mem.unread]
    omega
  have hsub : (s.mem.writeIndex - s.mem.readIndex).toNat
      = (2 ^ 32 - s.mem.readIndex.toNat + s.mem.writeIndex.toNat) % 2 ^ 32 := toNat_sub ..
  have hint : (s.mem.writeIndex - s.mem.readIndex).toInt < 0 ↔
      2 ^ 31 ≤ (s.mem.writeIndex - s.mem.readIndex).toNat := by
    rw [toInt_eq_toNat_cond]
    split <;> omega
  rw [ProducerConsumerQueue.sizeGuess]
  rcases h.difference hsize with hdiff | hdiff
  · have hret : (s.mem.writeIndex - s.mem.readIndex).toNat = s.mem.unread := by omega
    rw [if_neg (by omega), toNat_signExtend (by omega), hret]
  have hret : (s.mem.writeIndex - s.mem.readIndex).toNat + size.toNat
      = s.mem.unread + 2 ^ 32 := by omega
  have hsum : (s.mem.writeIndex - s.mem.readIndex + size).toNat = s.mem.unread := by
    rw [toNat_add, hret, add_mod_right]
    exact mod_eq_of_lt (by omega)
  rw [if_pos (by omega), toNat_signExtend (by omega), hsum]

end Invariant

structure Exact (size : Word) (s : State T) : Prop where
  fifo : s.mem.taken <+: s.mem.written
  writeFails : ∀ f ∈ s.mem.failedWrites, f = (size.toNat - 1, size.toNat - 1)
  readFails : ∀ f ∈ s.mem.failedReads, f = (0, 0)
  front : ∀ slot, s.consumer = .idle (some slot) →
    ∃ value, s.mem.records slot = .live value ∧ s.mem.taken ++ [value] <+: s.mem.written
  defined : s.consumer ≠ .undefined
  sizeGuess : s.producer = .idle → (∃ front, s.consumer = .idle front) →
    (sizeGuess size s.mem).toNat = s.mem.written.length - s.mem.taken.length

theorem exact_of_runs {size : Word} (hsize : 2 ≤ size.toNat) (hsize' : size.toNat < 2 ^ 31)
    {s : State T} (h : Runs size start s) : Exact size s := by
  have hinv := inv_of_runs hsize h
  refine ⟨hinv.fifo, hinv.failedWrites, hinv.failedReads, fun slot hslot => ?_, fun hundef => ?_,
    fun _ _ => hinv.sizeGuess hsize hsize'⟩
  · have hok := hinv.consumer
    rw [hslot] at hok
    obtain ⟨rfl, hlt⟩ := hok
    obtain ⟨value, hvalue, hrecord⟩ := hinv.front hsize hlt
    rw [hslot] at hrecord
    exact ⟨value, hrecord, concat_prefix hinv.fifo hvalue⟩
  · have hok := hinv.consumer
    rw [hundef] at hok
    exact hok

def play (size : Word) : List (T ⊕ Op) → State T → Option (State T)
  | [], s => some s
  | .inl value :: events, s =>
    let r := producerStep size value s.mem s.producer
    play size events ⟨r.1, r.2, s.consumer⟩
  | .inr op :: events, s =>
    match consumerStep size op s.mem s.consumer with
    | some (m, c) => play size events ⟨m, s.producer, c⟩
    | none => none

lemma runs_of_play {size : Word} {events : List (T ⊕ Op)} :
    ∀ {s s' : State T}, play size events s = some s' → Runs size s s' := by
  induction events with
  | nil =>
    intro s s' h
    cases h
    exact .refl
  | cons e events ih =>
    intro s s' h
    cases e with
    | inl value => exact .head (.producer value) (ih h)
    | inr op =>
      rw [play] at h
      split at h
      · rename_i m c hs
        exact .head (.consumer op hs) (ih h)
      · cases h

theorem exact_with_two_slots : ∃ s : State Nat, Runs 2 start s ∧ s.mem.written = [7] ∧
    s.mem.taken = [7] ∧ s.mem.failedWrites = [(1, 1)] ∧ s.mem.failedReads = [(0, 0)] ∧
    Exact 2 s := by
  have hplay : (play 2 (List.replicate 4 (.inl 7) ++ List.replicate 2 (.inl 8)
      ++ List.replicate 2 (.inr .frontPtr) ++ List.replicate 4 (.inr .popFront)
      ++ List.replicate 3 (.inl 9) ++ List.replicate 2 (.inr .read)) start).map
        (fun s : State Nat => (s.mem.written, s.mem.taken, s.mem.failedWrites, s.mem.failedReads))
      = some ([7], [7], [(1, 1)], [(0, 0)]) := by
    decide
  obtain ⟨s, hs, hfacts⟩ := Option.map_eq_some_iff.mp hplay
  have hruns := runs_of_play hs
  simp only [Prod.mk.injEq] at hfacts
  obtain ⟨hwritten, htaken, hwrites, hreads⟩ := hfacts
  exact ⟨s, hruns, hwritten, htaken, hwrites, hreads, exact_of_runs (by decide) (by decide) hruns⟩

end Acc.Thread.ProducerConsumerQueue
