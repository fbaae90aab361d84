import Accelerator.Compression.ZlibStream

namespace Acc.Compression

open List

structure Stream where
  bytes : List UInt8
  total : List UInt8
  avail : Nat → Nat
  nonempty : bytes ≠ []
  mono : ∀ j k, j ≤ k → avail j ≤ avail k
  avail_le : ∀ k, avail k ≤ total.length
  complete : avail bytes.length = total.length

def Stream.segment (S : Stream) (a b : Nat) : List UInt8 := (S.total.drop a).take (b - a)

lemma Stream.segment_append (S : Stream) {a b c : Nat} (hab : a ≤ b) (hbc : b ≤ c) :
    S.segment a b ++ S.segment b c = S.segment a c := by
  have hb : S.total.drop b = (S.total.drop a).drop (b - a) := by rw [drop_drop, Nat.add_sub_cancel' hab]
  rw [segment, segment, segment, hb, ← take_add, show b - a + (c - b) = c - a by omega]

structure Inflate (S : Stream) (σ : Type) where
  start : σ
  call : σ → List UInt8 → Nat → Reply σ
  taken : σ → Nat
  given : σ → Nat
  start_eq : taken start = 0 ∧ given start = 0
  consumed_le : ∀ s u n, (call s u n).consumed ≤ u.length
  output_le : ∀ s u n, (call s u n).output.length ≤ n
  taken_call : ∀ s u n, taken (call s u n).state = taken s + (call s u n).consumed
  given_call : ∀ s u n, given (call s u n).state = given s + (call s u n).output.length
  correct : ∀ s u n, u = (S.bytes.drop (taken s)).take u.length → given s ≤ S.avail (taken s) →
    (call s u n).output = (S.total.drop (given s)).take (call s u n).output.length ∧
      given (call s u n).state ≤ S.avail (taken (call s u n).state)
  eager : ∀ s u n, u = (S.bytes.drop (taken s)).take u.length → given s ≤ S.avail (taken s) →
    (call s u n).output.length < n →
    (call s u n).consumed = u.length ∧ given (call s u n).state = S.avail (taken s + u.length)
  status_eq : ∀ s u n, u = (S.bytes.drop (taken s)).take u.length → given s ≤ S.avail (taken s) →
    (call s u n).status =
      if taken (call s u n).state = S.bytes.length ∧ given (call s u n).state = S.total.length then .streamEnd
      else if (call s u n).consumed = 0 ∧ (call s u n).output = [] then .bufError
      else .ok

namespace Inflate

variable {S : Stream} {σ : Type}

def Pending (I : Inflate S σ) (s : σ) : Prop := I.given s < S.avail (I.taken s)

end Inflate

structure Decompressor (σ : Type) where
  strm : σ
  status : Status
  visits : List (List UInt8 × σ)

section

variable {S : Stream} {σ : Type} (I : Inflate S σ) (flags : Flags)

def moveOn (pos : Position) : Option Position :=
  if pos.crtBuf.length = pos.offset then
    match pos.todo with
    | [] => none
    | b :: todo => some ⟨b, todo, 0⟩
  else some pos

def decompressLoop : Nat → Position → Decompressor σ → Appender →
    Option (Decompressor σ × Option (List UInt8))
  | 0, _, _, _ => none
  | fuel + 1, pos, z, out =>
    match moveOn pos with
    | none => some (z, some out.bytes)
    | some pos =>
      let origAvailIn := subSize pos.crtBuf.length pos.offset
      let u := pos.crtBuf.window pos.offset (uInt origAvailIn)
      let visits := z.visits ++ [(u, z.strm)]
      if z.status = .streamEnd then some (⟨z.strm, .streamError, visits⟩, none)
      else
        let out := out.ensure flags
        let a := I.call z.strm u (uInt out.room)
        let z : Decompressor σ := ⟨a.state, a.status, visits⟩
        if a.status ≠ .ok ∧ a.status ≠ .streamEnd then some (z, none)
        else
          let inConsumed := origAvailIn - (u.length - a.consumed)
          decompressLoop fuel { pos with offset := (pos.offset + inConsumed) % 2 ^ 64 } z
            (out.append a.output)

def decompress (fuel : Nat) (head : Buf) (rest : List Buf) (z : Decompressor σ) :
    Option (Decompressor σ × Option (List UInt8)) :=
  decompressLoop I flags fuel ⟨head, rest, 0⟩ z (.new flags)

def decompressAll (fuel : Nat) : List (Buf × List Buf) → Decompressor σ →
    Option (Decompressor σ × Option (List UInt8))
  | [], z => some (z, some [])
  | (head, rest) :: chains, z =>
    match decompress I flags fuel head rest z with
    | none => none
    | some (z, none) => some (z, none)
    | some (z, some out) => (decompressAll fuel chains z).map fun r => (r.1, r.2.map (out ++ ·))

end

namespace Inflate

variable {S : Stream} {σ : Type} {I : Inflate S σ} {s : σ}

structure Sound (I : Inflate S σ) (s : σ) (rest : List UInt8) : Prop where
  rest_eq : S.bytes.drop (I.taken s) = rest
  taken_le : I.taken s ≤ S.bytes.length
  given_le : I.given s ≤ S.avail (I.taken s)

def Complete (I : Inflate S σ) (s : σ) : Prop := I.taken s = S.bytes.length ∧ I.given s = S.total.length

instance (I : Inflate S σ) (s : σ) : Decidable (I.Complete s) := inferInstanceAs (Decidable (_ ∧ _))

lemma sound_start (I : Inflate S σ) : I.Sound I.start S.bytes := by
  obtain ⟨htaken, hgiven⟩ := I.start_eq
  refine ⟨by rw [htaken, drop_zero], by rw [htaken]; exact Nat.zero_le _, ?_⟩
  rw [hgiven]
  exact Nat.zero_le _

lemma not_complete_start (I : Inflate S σ) : ¬ I.Complete I.start := by
  rintro ⟨htaken, -⟩
  rw [I.start_eq.1] at htaken
  exact S.nonempty (length_eq_zero_iff.mp htaken.symm)

lemma Sound.given_le_total {rest : List UInt8} (hs : I.Sound s rest) : I.given s ≤ S.total.length := by
  rw [← S.complete]
  exact Nat.le_trans hs.given_le (S.mono _ _ hs.taken_le)

section

variable {u rest : List UInt8} (hs : I.Sound s (u ++ rest))
include hs

lemma Sound.input_eq : u = (S.bytes.drop (I.taken s)).take u.length := by
  rw [hs.rest_eq, take_left]

lemma Sound.not_complete (h : u ≠ [] ∨ I.Pending s) : ¬ I.Complete s := by
  rintro ⟨htaken, hgiven⟩
  obtain hu | hpending := h
  · have hrest := hs.rest_eq
    rw [htaken, drop_length] at hrest
    exact hu (append_eq_nil_iff.mp hrest.symm).1
  · rw [Pending, htaken, hgiven, S.complete] at hpending
    exact Nat.lt_irrefl _ hpending

lemma Sound.call (n : Nat) : I.Sound (I.call s u n).state (u.drop (I.call s u n).consumed ++ rest) := by
  have hconsumed := I.consumed_le s u n
  refine ⟨?_, ?_, (I.correct s u n hs.input_eq hs.given_le).2⟩
  · rw [I.taken_call, ← drop_drop, hs.rest_eq, drop_append_of_le_length hconsumed]
  have hlength := congrArg List.length hs.rest_eq
  rw [length_drop, length_append] at hlength
  have htaken := hs.taken_le
  rw [I.taken_call]
  omega

lemma Sound.progress {n : Nat} (hn : 0 < n) (h : u ≠ [] ∨ I.Pending s) :
    0 < (I.call s u n).consumed + (I.call s u n).output.length := by
  by_cases hfull : (I.call s u n).output.length < n
  · obtain ⟨hconsumed, hgiven⟩ := I.eager s u n hs.input_eq hs.given_le hfull
    obtain hu | hpending := h
    · have := length_pos_iff.mpr hu
      omega
    rw [I.given_call] at hgiven
    have hmono := S.mono (I.taken s) (I.taken s + u.length) (Nat.le_add_right ..)
    rw [Pending] at hpending
    omega
  · omega

lemma Sound.no_progress (n : Nat) (hu : u = []) (hpending : ¬ I.Pending s) :
    (I.call s u n).consumed = 0 ∧ (I.call s u n).output = [] := by
  have hle := I.consumed_le s u n
  have hafter := (I.correct s u n hs.input_eq hs.given_le).2
  rw [hu, length_nil] at hle
  have hconsumed : (I.call s u n).consumed = 0 := by
    rw [hu]
    omega
  refine ⟨hconsumed, length_eq_zero_iff.mp ?_⟩
  rw [I.given_call, I.taken_call, hconsumed, Nat.add_zero] at hafter
  rw [Pending] at hpending
  omega

lemma Sound.status_cases {n : Nat} (hn : 0 < n) :
    ((u ≠ [] ∨ I.Pending s) ∧ ((I.call s u n).status = .streamEnd ∧ I.Complete (I.call s u n).state ∨
      (I.call s u n).status = .ok ∧ ¬ I.Complete (I.call s u n).state)) ∨
    (u = [] ∧ ¬ I.Pending s ∧ (¬ I.Complete s → (I.call s u n).status = .bufError)) := by
  have hstatus : (I.call s u n).status = if I.Complete (I.call s u n).state then .streamEnd
      else if (I.call s u n).consumed = 0 ∧ (I.call s u n).output = [] then .bufError else .ok :=
    I.status_eq s u n hs.input_eq hs.given_le
  by_cases h : u ≠ [] ∨ I.Pending s
  · refine .inl ⟨h, ?_⟩
    have hprogress := hs.progress hn h
    by_cases hcomplete : I.Complete (I.call s u n).state
    · exact .inl ⟨by rw [hstatus, if_pos hcomplete], hcomplete⟩
    refine .inr ⟨?_, hcomplete⟩
    rw [hstatus, if_neg hcomplete, if_neg]
    rintro ⟨hconsumed, houtput⟩
    rw [hconsumed, houtput, length_nil] at hprogress
    exact Nat.lt_irrefl _ hprogress
  obtain ⟨hu, hpending⟩ := not_or.mp h
  refine .inr ⟨not_not.mp hu, hpending, fun hnot => ?_⟩
  obtain ⟨hconsumed, houtput⟩ := hs.no_progress n (not_not.mp hu) hpending
  have hsame : ¬ I.Complete (I.call s u n).state := by
    rw [Complete, I.taken_call, I.given_call, hconsumed, houtput]
    exact hnot
  rw [hstatus, if_neg hsame, if_pos ⟨hconsumed, houtput⟩]

end

end Inflate

section

variable {S : Stream} {σ : Type} {I : Inflate S σ} {flags : Flags} {later : List UInt8}

structure At (I : Inflate S σ) (later : List UInt8) (pos : Position) (z : Decompressor σ) (out : Appender) :
    Prop where
  sound : I.Sound z.strm (pos.crtBuf.bytes.drop pos.offset ++ (pos.todo.flatMap Buf.bytes ++ later))
  offset_le : pos.offset ≤ pos.crtBuf.length
  short : ∀ b ∈ pos.crtBuf :: pos.todo, b.length < 2 ^ 32
  status : z.status = .streamEnd ∧ I.Complete z.strm ∨ z.status = .ok ∧ ¬ I.Complete z.strm
  room : out.room < 2 ^ 32

def Position.left (pos : Position) : Nat :=
  pos.crtBuf.length - pos.offset + ((pos.todo.map Buf.length).sum + pos.todo.length)

variable {pos : Position} {z z' : Decompressor σ} {out : Appender}

lemma moveOn_cases (hat : At I later pos z out) : (moveOn pos = none ∧ I.Sound z.strm later) ∨
    ∃ pos', moveOn pos = some pos' ∧ At I later pos' z out ∧ pos'.left ≤ pos.left := by
  obtain ⟨crtBuf, todo, offset⟩ := pos
  have hsound := hat.sound
  by_cases hend : crtBuf.length = offset
  · have hnil : crtBuf.bytes.drop offset = [] := drop_of_length_le (Nat.le_of_eq hend)
    rw [hnil, nil_append] at hsound
    cases todo with
    | nil => exact .inl ⟨if_pos hend, by rwa [flatMap_nil, nil_append] at hsound⟩
    | cons b todo =>
      rw [flatMap_cons, append_assoc] at hsound
      refine .inr ⟨⟨b, todo, 0⟩, if_pos hend, ⟨?_, Nat.zero_le _, ?_, hat.status, hat.room⟩, ?_⟩
      · rwa [drop_zero]
      · exact fun b' hb' => hat.short b' (mem_cons_of_mem _ hb')
      · simp only [Position.left, map_cons, sum_cons, length_cons]
        omega
  · exact .inr ⟨_, if_neg hend, hat, Nat.le_refl _⟩

lemma At.window_eq (hat : At I later pos z out) :
    subSize pos.crtBuf.length pos.offset = pos.crtBuf.length - pos.offset ∧
    pos.crtBuf.window pos.offset (uInt (subSize pos.crtBuf.length pos.offset)) = pos.crtBuf.bytes.drop pos.offset := by
  have hshort := hat.short _ mem_cons_self
  have hle := hat.offset_le
  have hsub : subSize pos.crtBuf.length pos.offset = pos.crtBuf.length - pos.offset := by
    rw [subSize]
    omega
  refine ⟨hsub, ?_⟩
  rw [hsub, uInt, Nat.mod_eq_of_lt (by omega), Buf.window_eq_drop]

inductive Outcome (I : Inflate S σ) (later : List UInt8) (z : Decompressor σ) (written : List UInt8) :
    Decompressor σ → Option (List UInt8) → Prop
  | failed {z' : Decompressor σ} {visits : List (List UInt8 × σ)} (hvisits : z'.visits = z.visits ++ visits)
      (hstalled : ∃ v ∈ visits, v.1 = [] ∧ ¬ I.Pending v.2) : Outcome I later z written z' none
  | returned {z' : Decompressor σ} {visits : List (List UInt8 × σ)} (hvisits : z'.visits = z.visits ++ visits)
      (hfed : ∀ v ∈ visits, v.1 = [] → I.Pending v.2) (hsound : I.Sound z'.strm later)
      (hstatus : z'.status = .streamEnd ∧ I.Complete z'.strm ∨ z'.status = .ok ∧ ¬ I.Complete z'.strm)
      (hgiven : I.given z.strm ≤ I.given z'.strm) :
      Outcome I later z written z' (some (written ++ S.segment (I.given z.strm) (I.given z'.strm)))

lemma decompressLoop_eq {pos₀ : Position} {u : List UInt8} {n : Nat}
    (hmove : moveOn pos₀ = some pos)
    (hu : pos.crtBuf.window pos.offset (uInt (subSize pos.crtBuf.length pos.offset)) = u)
    (hn : uInt (out.ensure flags).room = n) (fuel : Nat) :
    decompressLoop I flags (fuel + 1) pos₀ z out =
      if z.status = .streamEnd then some (⟨z.strm, .streamError, z.visits ++ [(u, z.strm)]⟩, none)
      else if (I.call z.strm u n).status ≠ .ok ∧ (I.call z.strm u n).status ≠ .streamEnd then
        some (⟨(I.call z.strm u n).state, (I.call z.strm u n).status, z.visits ++ [(u, z.strm)]⟩, none)
      else decompressLoop I flags fuel
        { pos with offset := (pos.offset + (subSize pos.crtBuf.length pos.offset
          - (u.length - (I.call z.strm u n).consumed))) % 2 ^ 64 }
        ⟨(I.call z.strm u n).state, (I.call z.strm u n).status, z.visits ++ [(u, z.strm)]⟩
        ((out.ensure flags).append (I.call z.strm u n).output) := by
  simp only [decompressLoop, hmove, hu, hn]

section Step

variable {pos₀ pos : Position} {z : Decompressor σ} {out : Appender} (hmove : moveOn pos₀ = some pos)
  (hat : At I later pos z out)
include hmove hat

variable (flags) in
lemma decompressLoop_step :
    (∃ z', (∀ fuel, decompressLoop I flags (fuel + 1) pos₀ z out = some (z', none)) ∧
      z'.visits = z.visits ++ [([], z.strm)] ∧ ¬ I.Pending z.strm) ∨
    ∃ u pos' z' out', (∀ fuel, decompressLoop I flags (fuel + 1) pos₀ z out
        = decompressLoop I flags fuel pos' z' out') ∧
      z'.visits = z.visits ++ [(u, z.strm)] ∧ (u = [] → I.Pending z.strm) ∧ At I later pos' z' out' ∧
      I.given z.strm ≤ I.given z'.strm ∧
      out'.bytes = out.bytes ++ S.segment (I.given z.strm) (I.given z'.strm) ∧
      pos'.left + (S.total.length - I.given z'.strm) < pos.left + (S.total.length - I.given z.strm) := by
  obtain ⟨hsub, hwindow⟩ := hat.window_eq
  have hroom : (out.ensure flags).room < 2 ^ 32 := Appender.room_ensure_lt hat.room
  have hn : uInt (out.ensure flags).room = (out.ensure flags).room := Nat.mod_eq_of_lt hroom
  have hpos : 0 < (out.ensure flags).room :=
    Nat.lt_of_lt_of_le flags.minsize_pos (Appender.room_ensure flags out)
  have heq := decompressLoop_eq (I := I) (z := z) hmove hwindow hn
  rw [hsub] at heq
  have hsound := hat.sound
  have hshort := hat.short _ mem_cons_self
  have hoffset := hat.offset_le
  have hlength : (pos.crtBuf.bytes.drop pos.offset).length = pos.crtBuf.length - pos.offset := length_drop
  generalize hu : pos.crtBuf.bytes.drop pos.offset = u at *
  generalize (out.ensure flags).room = n at *
  have hconsumed := I.consumed_le z.strm u n
  obtain ⟨htodo, hstatus⟩ | ⟨rfl, hpending, hstatus⟩ := hsound.status_cases hpos
  · have hne : z.status ≠ .streamEnd := by
      obtain ⟨-, hcomplete⟩ | ⟨hok, -⟩ := hat.status
      · exact absurd hcomplete (hsound.not_complete htodo)
      · rw [hok]
        decide
    have hgoes : ¬ ((I.call z.strm u n).status ≠ .ok ∧ (I.call z.strm u n).status ≠ .streamEnd) := by
      rintro ⟨hok, hend⟩
      obtain ⟨h, -⟩ | ⟨h, -⟩ := hstatus
      · exact hend h
      · exact hok h
    have hcall := hsound.call n
    have hgiven := I.given_call z.strm u n
    have hprogress := hsound.progress hpos htodo
    have htotal := hcall.given_le_total
    have hmoved : (pos.offset + (pos.crtBuf.length - pos.offset - (u.length - (I.call z.strm u n).consumed)))
        % 2 ^ 64 = pos.offset + (I.call z.strm u n).consumed := by omega
    refine .inr ⟨u, { pos with offset := pos.offset + (I.call z.strm u n).consumed },
      ⟨(I.call z.strm u n).state, (I.call z.strm u n).status, z.visits ++ [(u, z.strm)]⟩,
      (out.ensure flags).append (I.call z.strm u n).output, fun fuel => ?_, rfl,
      fun h => htodo.resolve_left (not_not.mpr h), ⟨?_, ?_, hat.short, hstatus, ?_⟩, ?_, ?_, ?_⟩
    · rw [heq, if_neg hne, if_neg hgoes, hmoved]
    · simp only [← drop_drop, hu]
      exact hcall
    · show pos.offset + _ ≤ pos.crtBuf.length
      omega
    · exact Nat.lt_of_le_of_lt (Nat.sub_le ..) (Appender.room_ensure_lt hat.room)
    · show _ ≤ I.given (I.call z.strm u n).state
      omega
    · have hsegment : S.segment (I.given z.strm) (I.given (I.call z.strm u n).state) = (I.call z.strm u n).output := by
        rw [Stream.segment, hgiven, Nat.add_sub_cancel_left]
        exact (I.correct z.strm u n hsound.input_eq hsound.given_le).1.symm
      simp [hsegment, Appender.append]
    · simp only [Position.left]
      omega
  refine .inl ?_
  by_cases hend : z.status = .streamEnd
  · exact ⟨_, fun fuel => by rw [heq, if_pos hend], rfl, hpending⟩
  have hnot : ¬ I.Complete z.strm := by
    obtain ⟨h, -⟩ | ⟨-, h⟩ := hat.status
    · exact absurd h hend
    · exact h
  have hfails : (I.call z.strm [] n).status ≠ .ok ∧ (I.call z.strm [] n).status ≠ .streamEnd := by
    rw [hstatus hnot]
    decide
  exact ⟨_, fun fuel => by rw [heq, if_neg hend, if_pos hfails], rfl, hpending⟩

end Step

lemma Stream.segment_self (S : Stream) (a : Nat) : S.segment a a = [] := by
  simp [segment]

lemma Outcome.trans {z₁ : Decompressor σ} {written : List UInt8} {r : Option (List UInt8)}
    {visits : List (List UInt8 × σ)} (hvisits : z₁.visits = z.visits ++ visits)
    (hfed : ∀ v ∈ visits, v.1 = [] → I.Pending v.2) (hgiven : I.given z.strm ≤ I.given z₁.strm)
    (h : Outcome I later z₁ (written ++ S.segment (I.given z.strm) (I.given z₁.strm)) z' r) :
    Outcome I later z written z' r := by
  cases h with
  | @failed visits' hvisits' hstalled =>
    obtain ⟨v, hv, hstall⟩ := hstalled
    rw [hvisits, append_assoc] at hvisits'
    exact .failed hvisits' ⟨v, mem_append_right _ hv, hstall⟩
  | @returned visits' hvisits' hfed' hsound hstatus hgiven' =>
    have hall : ∀ v ∈ visits ++ visits', v.1 = [] → I.Pending v.2 := by
      intro v hv
      obtain hv | hv := mem_append.mp hv
      · exact hfed v hv
      · exact hfed' v hv
    rw [append_assoc, S.segment_append hgiven hgiven']
    rw [hvisits, append_assoc] at hvisits'
    exact .returned hvisits' hall hsound hstatus (Nat.le_trans hgiven hgiven')

lemma Outcome.done (written : List UInt8) (hsound : I.Sound z.strm later)
    (hstatus : z.status = .streamEnd ∧ I.Complete z.strm ∨ z.status = .ok ∧ ¬ I.Complete z.strm) :
    Outcome I later z written z (some written) := by
  have hreturned : Outcome I later z written z
      (some (written ++ S.segment (I.given z.strm) (I.given z.strm))) :=
    .returned (append_nil z.visits).symm (fun _ hv => nomatch hv) hsound hstatus (Nat.le_refl _)
  rwa [S.segment_self, append_nil] at hreturned

lemma Outcome.prepend {written : List UInt8} {r : Option (List UInt8)}
    (before : List UInt8) (h : Outcome I later z written z' r) :
    Outcome I later z (before ++ written) z' (r.map (before ++ ·)) := by
  cases h with
  | failed hvisits hstalled => exact .failed hvisits hstalled
  | returned hvisits hfed hsound hstatus hgiven =>
    rw [Option.map_some, ← append_assoc]
    exact .returned hvisits hfed hsound hstatus hgiven

variable (flags) in
lemma decompressLoop_spec (hat : At I later pos z out) :
    ∃ N z' r, (∀ fuel ≥ N, decompressLoop I flags fuel pos z out = some (z', r)) ∧
      Outcome I later z out.bytes z' r := by
  generalize hmeasure : pos.left + (S.total.length - I.given z.strm) = m
  induction m using Nat.strongRecOn generalizing pos z out with
  | _ m ih =>
    have hpass : ∀ {fuel N : Nat}, fuel ≥ N + 1 → ∃ k, fuel = k + 1 ∧ k ≥ N := fun {fuel N} h =>
      ⟨fuel - 1, by omega, by omega⟩
    obtain ⟨hmove, hsound⟩ | ⟨pos', hmove, hat', hleft⟩ := moveOn_cases hat
    · refine ⟨0 + 1, z, some out.bytes, fun fuel hfuel => ?_, ?_⟩
      · obtain ⟨k, rfl, -⟩ := hpass hfuel
        simp only [decompressLoop, hmove]
      · exact .done _ hsound hat.status
    obtain ⟨z', hloop, hvisits, hpending⟩ | ⟨u, pos'', z'', out'', hloop, hvisits, hu, hat'', hgiven, hbytes, hlt⟩ :=
      decompressLoop_step flags hmove hat'
    · refine ⟨0 + 1, z', none, fun fuel hfuel => ?_, .failed hvisits ⟨_, mem_singleton_self _, rfl, hpending⟩⟩
      obtain ⟨k, rfl, -⟩ := hpass hfuel
      exact hloop k
    obtain ⟨N, z', r, hrest, houtcome⟩ := ih _ (by omega) hat'' rfl
    refine ⟨N + 1, z', r, fun fuel hfuel => ?_, ?_⟩
    · obtain ⟨k, rfl, hk⟩ := hpass hfuel
      rw [hloop, hrest k hk]
    rw [hbytes] at houtcome
    refine houtcome.trans hvisits (fun v hv hnil => ?_) hgiven
    rw [mem_singleton.mp hv] at hnil ⊢
    exact hu hnil

def chainBytes (chain : Buf × List Buf) : List UInt8 := (chain.1 :: chain.2).flatMap Buf.bytes

variable (flags) in
lemma decompressAll_spec (chains : List (Buf × List Buf)) (z : Decompressor σ)
    (hsound : I.Sound z.strm (chains.flatMap chainBytes))
    (hshort : ∀ chain ∈ chains, ∀ b ∈ chain.1 :: chain.2, b.length < 2 ^ 32)
    (hstatus : z.status = .streamEnd ∧ I.Complete z.strm ∨ z.status = .ok ∧ ¬ I.Complete z.strm) :
    ∃ N z' r, (∀ fuel ≥ N, decompressAll I flags fuel chains z = some (z', r)) ∧ Outcome I [] z [] z' r := by
  induction chains generalizing z with
  | nil => exact ⟨0, z, some [], fun _ _ => rfl, .done [] hsound hstatus⟩
  | cons chain chains ih =>
    obtain ⟨head, rest⟩ := chain
    have hat : At I (chains.flatMap chainBytes) ⟨head, rest, 0⟩ z (.new flags) := by
      refine ⟨?_, Nat.zero_le _, hshort _ mem_cons_self, hstatus, Appender.room_new flags⟩
      rw [flatMap_cons, chainBytes, flatMap_cons, append_assoc] at hsound
      rwa [drop_zero]
    obtain ⟨N, z₁, r, hfirst, houtcome⟩ := decompressLoop_spec flags hat
    cases houtcome with
    | failed hvisits hstalled =>
      refine ⟨N, z₁, none, fun fuel hfuel => ?_, .failed hvisits hstalled⟩
      simp only [decompressAll, decompress, hfirst fuel hfuel]
    | returned hvisits hfed hsound' hstatus' hgiven =>
      obtain ⟨N', z', r, hothers, houtcome⟩ := ih z₁ hsound'
        (fun chain hchain => hshort chain (mem_cons_of_mem _ hchain)) hstatus'
      have hjoined := houtcome.prepend (S.segment (I.given z.strm) (I.given z₁.strm))
      rw [append_nil] at hjoined
      refine ⟨max N N', z', _, fun fuel hfuel => ?_, .trans hvisits hfed hgiven hjoined⟩
      simp only [decompressAll, decompress, hfirst fuel (by omega), hothers fuel (by omega), Option.map_some]
      rfl

end

def greedy (S : Stream) : Inflate S (Nat × Nat) where
  start := (0, 0)
  call s u n :=
    let t := s.1 + u.length
    let o := (S.total.drop s.2).take (min n (S.avail t - s.2))
    let g := s.2 + o.length
    ⟨(t, g), u.length, o,
      if t = S.bytes.length ∧ g = S.total.length then .streamEnd
      else if u.length = 0 ∧ o = [] then .bufError
      else .ok⟩
  taken := Prod.fst
  given := Prod.snd
  start_eq := ⟨rfl, rfl⟩
  consumed_le _ _ _ := Nat.le_refl _
  output_le s u n := Nat.le_trans (List.length_take_le ..) (Nat.min_le_left ..)
  taken_call _ _ _ := rfl
  given_call _ _ _ := rfl
  correct s u n _ hle := by
    have hmono := S.mono s.1 (s.1 + u.length) (Nat.le_add_right ..)
    refine ⟨?_, ?_⟩
    · simp only [List.length_take, List.take_eq_take_iff]
      omega
    · simp only [List.length_take]
      omega
  eager s u n _ hle hlt := by
    have hmono := S.mono s.1 (s.1 + u.length) (Nat.le_add_right ..)
    have htotal := S.avail_le (s.1 + u.length)
    simp only [List.length_take, List.length_drop] at hlt ⊢
    exact ⟨trivial, by omega⟩
  status_eq _ _ _ _ _ := rfl

def decompressorFlags : Flags where
  growth := 480
  minsize := 64
  create n := n
  minsize_pos := by decide
  le_create := Nat.le_refl
  create_lt n hn := Nat.lt_of_le_of_lt hn (by decide)

def stored (l : List UInt8) (h : l ≠ []) : Stream where
  bytes := l
  total := l
  avail k := min k l.length
  nonempty := h
  mono j k hjk := by omega
  avail_le k := Nat.min_le_right ..
  complete := Nat.min_self _

def zeros : Stream where
  bytes := [0]
  total := List.replicate 1000 0
  avail k := min k 1 * 1000
  nonempty := by decide
  mono j k hjk := by omega
  avail_le k := by
    rw [List.length_replicate]
    omega
  complete := by rw [List.length_replicate]; rfl

end Acc.Compression
