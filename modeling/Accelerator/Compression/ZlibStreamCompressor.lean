import Accelerator.Compression.ZlibStream

namespace Acc.Compression

open List Nat

structure Deflate (σ : Type) where
  call : σ → List UInt8 → Nat → Flush → Reply σ
  work : σ → List UInt8 → Flush → Nat
  consumed_le : ∀ s u n f, (call s u n f).consumed ≤ u.length
  output_le : ∀ s u n f, (call s u n f).output.length ≤ n
  all_consumed : ∀ s u n f, (call s u n f).output.length < n → (call s u n f).consumed = u.length
  no_error : ∀ s u n f, (call s u n f).status ≠ .streamError
  work_lt : ∀ s u n f, 0 < n → (call s u n f).output.length = n →
    work (call s u n f).state (u.drop (call s u n f).consumed) f < work s u f

structure Compressor (σ : Type) where
  strm : σ
  status : Status
  out : Appender
  calls : List (List UInt8 × Flush)

section

variable {σ : Type} (D : Deflate σ) (flags : Flags)

def drain (flush : Flush) : Nat → List UInt8 → Compressor σ → Option (Compressor σ × List UInt8)
  | 0, _, _ => none
  | fuel + 1, u, z =>
    let a := D.call z.strm u flags.minsize flush
    let z' : Compressor σ := ⟨a.state, a.status, (z.out.ensure flags).append a.output,
      z.calls ++ [(u.take a.consumed, flush)]⟩
    if a.output.length = flags.minsize then drain flush fuel (u.drop a.consumed) z'
    else some (z', u.drop a.consumed)

def advance (head : Buf) (rest : List Buf) (trailer : Bool) (pos : Position) : Position × Flush :=
  if pos.crtBuf.length = pos.offset then
    match pos.todo with
    | b :: todo => (⟨b, todo, 0⟩, .noFlush)
    | [] => (⟨head, rest, pos.offset⟩, if trailer then .finish else .syncFlush)
  else (pos, .noFlush)

def compressLoop (head : Buf) (rest : List Buf) (trailer : Bool) :
    Nat → Position → Compressor σ → Option (Compressor σ × Option (List UInt8))
  | 0, _, _ => none
  | fuel + 1, pos, z =>
    let (pos, flush) := advance head rest trailer pos
    if z.status = .streamError then some (z, none)
    else
      let origAvailIn := subSize pos.crtBuf.length pos.offset
      match drain D flags flush fuel (pos.crtBuf.window pos.offset (uInt origAvailIn)) z with
      | none => none
      | some (z, left) =>
        let pos := { pos with offset := (pos.offset + (origAvailIn - left.length)) % 2 ^ 64 }
        if flush = .noFlush then compressLoop head rest trailer fuel pos z
        else some (z, some z.out.bytes)

def compress (fuel : Nat) (head : Buf) (rest : List Buf) (trailer : Bool) (strm : σ) (status : Status) :
    Option (Compressor σ × Option (List UInt8)) :=
  compressLoop D flags head rest trailer fuel ⟨head, rest, 0⟩ ⟨strm, status, .new flags, []⟩

end

def Compressor.fed {σ : Type} (z : Compressor σ) : List UInt8 := z.calls.flatMap Prod.fst

def Compressor.lastFlush {σ : Type} (z : Compressor σ) : Option Flush := z.calls.getLast?.map Prod.snd

section

variable {σ : Type} {D : Deflate σ} {flags : Flags} {head : Buf} {rest : List Buf} {trailer : Bool}

structure Took (z z' : Compressor σ) (u : List UInt8) (flush : Flush) : Prop where
  status : z'.status ≠ .streamError
  fed : z'.fed = z.fed ++ u
  last : z'.lastFlush = some flush

variable (D flags) in
lemma drain_spec (flush : Flush) (u : List UInt8) (z : Compressor σ) :
    ∃ N z', (∀ fuel ≥ N, drain D flags flush fuel u z = some (z', [])) ∧ Took z z' u flush := by
  generalize hwork : D.work z.strm u flush = w
  induction w using Nat.strongRecOn generalizing u z with
  | _ w ih =>
    let a := D.call z.strm u flags.minsize flush
    let z' : Compressor σ := ⟨a.state, a.status, (z.out.ensure flags).append a.output,
      z.calls ++ [(u.take a.consumed, flush)]⟩
    have hfed : z'.fed = z.fed ++ u.take a.consumed := by
      simp only [z', Compressor.fed, flatMap_append, flatMap_singleton]
    have hlast : z'.lastFlush = some flush := by
      simp only [z', Compressor.lastFlush, getLast?_concat, Option.map_some]
    have hstep : ∀ fuel, drain D flags flush (fuel + 1) u z
        = if a.output.length = flags.minsize then drain D flags flush fuel (u.drop a.consumed) z'
          else some (z', u.drop a.consumed) := fun _ => rfl
    by_cases hfull : a.output.length = flags.minsize
    · have hlt := D.work_lt z.strm u flags.minsize flush flags.minsize_pos hfull
      obtain ⟨N, z'', hdrain, htook⟩ := ih _ (hwork ▸ hlt) (u.drop a.consumed) z' rfl
      refine ⟨N + 1, z'', ?_, htook.status, ?_, htook.last⟩
      · intro fuel hfuel
        obtain ⟨fuel, rfl⟩ : ∃ k, fuel = k + 1 := ⟨fuel - 1, by omega⟩
        rw [hstep, if_pos hfull]
        exact hdrain fuel (by omega)
      · rw [htook.fed, hfed, append_assoc, take_append_drop]
    have hspace : a.output.length < flags.minsize :=
      Nat.lt_of_le_of_ne (D.output_le z.strm u flags.minsize flush) hfull
    have hall : a.consumed = u.length := D.all_consumed z.strm u flags.minsize flush hspace
    refine ⟨1, z', ?_, D.no_error _ _ _ _, ?_, hlast⟩
    · intro fuel hfuel
      obtain ⟨fuel, rfl⟩ : ∃ k, fuel = k + 1 := ⟨fuel - 1, by omega⟩
      rw [hstep, if_neg hfull, hall, drop_length]
    · rw [hfed, hall, take_length]

lemma compressLoop_step {pos pos' : Position} {flush : Flush} {z z' : Compressor σ} {N fuel : Nat}
    (hadvance : advance head rest trailer pos = (pos', flush)) (hstatus : z.status ≠ .streamError)
    (hdrain : ∀ fuel ≥ N, drain D flags flush fuel
      (pos'.crtBuf.window pos'.offset (uInt (subSize pos'.crtBuf.length pos'.offset))) z = some (z', []))
    (hfuel : N ≤ fuel) : compressLoop D flags head rest trailer (fuel + 1) pos z =
      if flush = .noFlush then compressLoop D flags head rest trailer fuel
          { pos' with offset := (pos'.offset + subSize pos'.crtBuf.length pos'.offset) % 2 ^ 64 } z'
      else some (z', some z'.out.bytes) := by
  have hleft := hdrain fuel hfuel
  simp only [compressLoop, hadvance, if_neg hstatus, hleft]
  rw [length_nil, Nat.sub_zero]

lemma subSize_zero (b : Buf) : subSize b.length 0 = b.length := by
  have hlt : b.length < 2 ^ 64 := b.size_lt
  rw [subSize, Nat.sub_zero, add_mod_right, mod_eq_of_lt hlt]

def given (b : Buf) : List UInt8 := b.window 0 (uInt b.length)

def again (head last : Buf) : List UInt8 := head.window last.length (uInt (subSize head.length last.length))

variable (D flags head rest trailer) in
lemma compressLoop_spec (b : Buf) (todo : List Buf) (z : Compressor σ) (hstatus : z.status ≠ .streamError) :
    ∃ N z', (∀ fuel ≥ N, compressLoop D flags head rest trailer fuel ⟨b, todo, b.length⟩ z
        = some (z', some z'.out.bytes)) ∧
      z'.fed = z.fed ++ (todo.flatMap given ++ again head (todo.getLastD b)) ∧
      z'.lastFlush = some (if trailer then .finish else .syncFlush) := by
  induction todo generalizing b z with
  | nil =>
    have hadvance : advance head rest trailer ⟨b, [], b.length⟩
        = (⟨head, rest, b.length⟩, if trailer then .finish else .syncFlush) := if_pos rfl
    obtain ⟨N, z', hdrain, htook⟩ := drain_spec D flags (if trailer then .finish else .syncFlush)
      (again head b) z
    have hflush : (if trailer then Flush.finish else .syncFlush) ≠ .noFlush := by
      cases trailer <;> decide
    refine ⟨N + 1, z', fun fuel hfuel => ?_, ?_, htook.last⟩
    · obtain ⟨fuel, rfl⟩ : ∃ k, fuel = k + 1 := ⟨fuel - 1, by omega⟩
      rw [compressLoop_step hadvance hstatus hdrain (by omega), if_neg hflush]
    · rw [htook.fed, flatMap_nil, nil_append, getLastD_nil]
  | cons b' todo ih =>
    have hadvance : advance head rest trailer ⟨b, b' :: todo, b.length⟩ = (⟨b', todo, 0⟩, .noFlush) :=
      if_pos rfl
    obtain ⟨N, z', hdrain, htook⟩ := drain_spec D flags .noFlush (given b') z
    obtain ⟨N', z'', hloop, hfed, hlast⟩ := ih b' z' htook.status
    refine ⟨max N N' + 1, z'', fun fuel hfuel => ?_, ?_, hlast⟩
    · obtain ⟨fuel, rfl⟩ : ∃ k, fuel = k + 1 := ⟨fuel - 1, by omega⟩
      rw [given, ← subSize_zero b'] at hdrain
      rw [compressLoop_step hadvance hstatus hdrain (by omega), if_pos rfl]
      simp only [subSize_zero, Nat.zero_add, mod_eq_of_lt (show b'.length < 2 ^ 64 from b'.size_lt)]
      exact hloop fuel (by omega)
    · rw [hfed, htook.fed, flatMap_cons, getLastD_cons]
      simp only [append_assoc]

variable (D flags head rest trailer) in
lemma compress_eq (strm : σ) {status : Status} (hstatus : status ≠ .streamError) :
    ∃ N z, (∀ fuel ≥ N, compress D flags fuel head rest trailer strm status = some (z, some z.out.bytes)) ∧
      z.fed = (head :: rest).flatMap given ++ again head (rest.getLastD head) ∧
      z.lastFlush = some (if trailer then .finish else .syncFlush) := by
  let z₀ : Compressor σ := ⟨strm, status, .new flags, []⟩
  have hempty : z₀.fed = [] := flatMap_nil
  by_cases h0 : head.length = 0
  · -- an empty first buffer is done at once
    obtain ⟨N, z, hloop, hfed, hlast⟩ := compressLoop_spec D flags head rest trailer head rest z₀ hstatus
    rw [h0] at hloop
    have hgiven : given head = [] := length_eq_zero_iff.mp (by
      rw [given, Buf.length_window, h0, uInt, zero_mod])
    exact ⟨N, z, hloop, by rw [hfed, hempty, flatMap_cons, hgiven, nil_append, nil_append], hlast⟩
  have hadvance : advance head rest trailer ⟨head, rest, 0⟩ = (⟨head, rest, 0⟩, .noFlush) := if_neg h0
  obtain ⟨N, z', hdrain, htook⟩ := drain_spec D flags .noFlush (given head) z₀
  obtain ⟨N', z, hloop, hfed, hlast⟩ := compressLoop_spec D flags head rest trailer head rest z' htook.status
  refine ⟨max N N' + 1, z, fun fuel hfuel => ?_, ?_, hlast⟩
  · obtain ⟨fuel, rfl⟩ : ∃ k, fuel = k + 1 := ⟨fuel - 1, by omega⟩
    rw [given, ← subSize_zero head] at hdrain
    rw [compress, compressLoop_step hadvance hstatus hdrain (by omega), if_pos rfl]
    simp only [subSize_zero, Nat.zero_add, mod_eq_of_lt (show head.length < 2 ^ 64 from head.size_lt)]
    exact hloop fuel (by omega)
  · rw [hfed, htook.fed, hempty, flatMap_cons, nil_append, append_assoc]

lemma length_flatMap_given (l : List Buf) :
    (l.flatMap Buf.bytes).length = (l.flatMap given).length + 2 ^ 32 * (l.map fun b => b.length / 2 ^ 32).sum := by
  induction l with
  | nil => simp
  | cons b l ih =>
    have hdiv : b.bytes.length % 2 ^ 32 + 2 ^ 32 * (b.length / 2 ^ 32) = b.bytes.length := mod_add_div ..
    have hgiven : (given b).length = b.bytes.length % 2 ^ 32 := by rw [given, Buf.length_window, uInt, Buf.length]
    rw [flatMap_cons, flatMap_cons, length_append, length_append, map_cons,
      sum_cons, Nat.mul_add, ih, hgiven]
    omega

lemma given_eq {b : Buf} (hb : b.length < 2 ^ 32) : given b = b.bytes := by
  rw [given, uInt, mod_eq_of_lt hb, b.window_all]

lemma length_again (head last : Buf) :
    (again head last).length = (head.length + 2 ^ 64 - last.length) % 2 ^ 64 % 2 ^ 32 := by
  rw [again, Buf.length_window, uInt, subSize]

lemma fed_eq_iff (head : Buf) (rest : List Buf) :
    (head :: rest).flatMap given ++ again head (rest.getLastD head) = (head :: rest).flatMap Buf.bytes ↔
      (∀ b ∈ head :: rest, b.length < 2 ^ 32) ∧ head.length = (rest.getLastD head).length := by
  have hlast : rest.getLastD head ∈ head :: rest := by
    rw [getLastD_eq_getLast?]
    cases hr : rest.getLast? with
    | none => exact List.mem_cons_self
    | some b => exact mem_cons_of_mem _ (mem_of_getLast? hr)
  generalize rest.getLastD head = last at hlast
  constructor
  · intro heq
    have hlength := congrArg List.length heq
    rw [length_flatMap_given, length_append, length_again] at hlength
    have hsum : ((head :: rest).map fun b => b.length / 2 ^ 32).sum = 0 := by omega
    have hshort : ∀ b ∈ head :: rest, b.length < 2 ^ 32 := by
      intro b hb
      have hzero := List.sum_eq_zero_iff_forall_eq_nat.mp hsum (b.length / 2 ^ 32) (List.mem_map_of_mem hb)
      omega
    have hhead := hshort head List.mem_cons_self
    have hlast := hshort last hlast
    exact ⟨hshort, by omega⟩
  rintro ⟨hshort, hlength⟩
  have hagain : again head last = [] := by
    rw [← length_eq_zero_iff, length_again, hlength, Nat.add_sub_cancel_left, mod_self, zero_mod]
  have hmap : (head :: rest).flatMap given = (head :: rest).flatMap Buf.bytes :=
    flatMap_congr fun b hb => given_eq (hshort b hb)
  rw [hagain, hmap, append_nil]

theorem compress_feeds_iff (D : Deflate σ) (flags : Flags) (head : Buf) (rest : List Buf) (trailer : Bool)
    (strm : σ) {status : Status} (hstatus : status ≠ .streamError) :
    ∃ N z, (∀ fuel ≥ N, compress D flags fuel head rest trailer strm status = some (z, some z.out.bytes)) ∧
      ((z.fed = (head :: rest).flatMap Buf.bytes ∧
          z.lastFlush = some (if trailer then .finish else .syncFlush)) ↔
        (∀ b ∈ head :: rest, b.length < 2 ^ 32) ∧ head.length = (rest.getLastD head).length) := by
  obtain ⟨N, z, hcompress, hfed, hlast⟩ := compress_eq D flags head rest trailer strm hstatus
  refine ⟨N, z, hcompress, ?_⟩
  rw [hfed, ← fed_eq_iff head rest]
  exact and_iff_left hlast

end

def silent : Deflate Unit where
  call _ u _ _ := ⟨(), u.length, [], .ok⟩
  work _ _ _ := 0
  consumed_le _ _ _ _ := Nat.le_refl _
  output_le _ _ n _ := Nat.zero_le n
  all_consumed _ _ _ _ _ := rfl
  no_error _ _ _ _ := Status.noConfusion
  work_lt _ _ _ _ hpos hfull := absurd hfull (Nat.ne_of_lt hpos)

def compressorFlags : Flags where
  growth := 2024
  minsize := 1024
  create n := n
  minsize_pos := by decide
  le_create := Nat.le_refl
  create_lt n hn := Nat.lt_of_le_of_lt hn (by decide)

theorem compress_feeds_iff_pair : ∃ N z,
    (∀ fuel ≥ N, compress silent compressorFlags fuel ⟨[1, 2], fun _ => 0, by decide⟩
      [⟨[3, 4], fun _ => 0, by decide⟩] true () .ok = some (z, some z.out.bytes)) ∧
    z.fed = [1, 2, 3, 4] ∧ z.lastFlush = some .finish := by
  obtain ⟨N, z, hcompress, hiff⟩ := compress_feeds_iff silent compressorFlags
    ⟨[1, 2], fun _ => 0, by decide⟩ [⟨[3, 4], fun _ => 0, by decide⟩] true ()
    (show Status.ok ≠ .streamError by decide)
  exact ⟨N, z, hcompress, hiff.mpr ⟨by decide, rfl⟩⟩

theorem compress_repeats_head :
    (compress silent compressorFlags 5 ⟨[1, 2, 3], fun _ => 0, by decide⟩
      [⟨[4], fun _ => 0, by decide⟩] true () .ok).map (fun r => r.1.calls)
      = some [([1, 2, 3], .noFlush), ([4], .noFlush), ([2, 3], .finish)] := by
  decide

end Acc.Compression
