import Accelerator.Text.Split

namespace Acc.Io

open List

open Text (Delim internalSplit internalJoin)

abbrev Component := List UInt8

namespace Path

def slash : UInt8 := 47
def dot : Component := [46]
def dotDot : Component := [46, 46]

def startsWithSlash (s : List UInt8) : Bool := s.head? == some slash

end Path

structure Path where
  path : List UInt8 := []
  deriving DecidableEq, Repr

namespace Path

def isAbsolute (p : Path) : Bool := startsWithSlash p.path

def appendStep (q1 : List Component) (p : Component) : List Component :=
  if p = dotDot then
    if q1.isEmpty ∨ q1.getLast? = some dotDot then q1 ++ [p] else q1.dropLast
  else if p ≠ dot then q1 ++ [p]
  else q1

def append (self : Path) (sp : List UInt8) : Path :=
  if sp.isEmpty then self
  else
    let q1 := if !startsWithSlash sp then internalSplit (.char slash) self.path true else []
    let q2 := internalSplit (.char slash) sp true
    let q1 := q1.dropWhile (· == dot)
    let q2 := q2.dropWhile (· == dot)
    let q1 := q2.foldl appendStep q1
    if self.isAbsolute || startsWithSlash sp then
      ⟨slash :: internalJoin (.char slash) (q1.dropWhile (· == dotDot))⟩
    else if q1.isEmpty then ⟨dot⟩
    else ⟨internalJoin (.char slash) q1⟩

def div (self : Path) (path : List UInt8) : Path := self.append path

def parent (self : Path) : Path := self.div dotDot

def ofString (s : List UInt8) : Path := ({} : Path).div s

def add (self : Path) (path : List UInt8) : Path := ofString (self.path ++ path)

def rfind (sp : List UInt8) (c : UInt8) : Option Nat :=
  (sp.reverse.findIdx? (· == c)).map fun i => sp.length - 1 - i

def name (self : Path) : Component :=
  match rfind self.path slash with
  | some p => self.path.drop (p + 1)
  | none => self.path

def base (self : Path) : Component :=
  let s := self.name
  if s = dot ∨ s = dotDot then s
  else match rfind s 46 with
    | some p => if p ≠ 0 ∧ p + 1 ≠ s.length then s.take p else s
    | none => s

def ext (self : Path) : Component :=
  let s := self.name
  if s = dot ∨ s = dotDot then []
  else match rfind s 46 with
    | some p => if p ≠ 0 ∧ p + 1 ≠ s.length then s.drop p else []
    | none => []

def replaceExt (self : Path) (ext : List UInt8) : Path := self.parent.div (self.base ++ ext)

def go (place : List Component) (c : Component) : List Component :=
  if c = [] ∨ c = dot then place
  else if c = dotDot then place.dropLast
  else place ++ [c]

def walk (place : List Component) (cs : List Component) : List Component := cs.foldl go place

def resolve (place : List Component) (s : List UInt8) : List Component :=
  walk (if startsWithSlash s then [] else place) (s.splitOn slash)

def Ordinary (c : Component) : Prop := c ≠ [] ∧ slash ∉ c ∧ c ≠ dot ∧ c ≠ dotDot

def Formatted (q : List Component) : Prop :=
  ∃ k names, q = List.replicate k dotDot ++ names ∧ ∀ c ∈ names, Ordinary c

inductive Canonical : List UInt8 → Prop
  | empty : Canonical []
  | absolute (names : List Component) (ordinary : ∀ c ∈ names, Ordinary c) :
      Canonical (slash :: [slash].intercalate names)
  | here : Canonical dot
  | relative (k : Nat) (names : List Component) (ordinary : ∀ c ∈ names, Ordinary c)
      (nonempty : List.replicate k dotDot ++ names ≠ []) :
      Canonical ([slash].intercalate (List.replicate k dotDot ++ names))

lemma formatted_nil : Formatted [] := ⟨0, [], rfl, nofun⟩

variable {k : Nat} {names q : List Component}

lemma appendStep_cases (hnames : ∀ c ∈ names, Ordinary c) (p : Component) :
    (p = dotDot ∧ names = [] ∧
      appendStep (List.replicate k dotDot ++ names) p = List.replicate (k + 1) dotDot) ∨
    (p = dotDot ∧ ∃ rest name, names = rest ++ [name] ∧
      appendStep (List.replicate k dotDot ++ names) p = List.replicate k dotDot ++ rest) ∨
    (p = dot ∧ appendStep (List.replicate k dotDot ++ names) p = List.replicate k dotDot ++ names) ∨
    (p ≠ dotDot ∧ p ≠ dot ∧ appendStep (List.replicate k dotDot ++ names) p =
        List.replicate k dotDot ++ (names ++ [p])) := by
  rw [appendStep]
  by_cases hup : p = dotDot
  · rw [if_pos hup]
    rcases eq_nil_or_concat' names with rfl | ⟨rest, name, rfl⟩
    · have hlast : (List.replicate k dotDot ++ []).isEmpty ∨
          (List.replicate k dotDot ++ []).getLast? = some dotDot := by
        cases k with
        | zero => exact .inl rfl
        | succ k => exact .inr (by simp [getLast?_replicate])
      rw [if_pos hlast, hup, append_nil, ← replicate_succ']
      exact .inl ⟨rfl, rfl, rfl⟩
    · have hlast : ¬ ((List.replicate k dotDot ++ (rest ++ [name])).isEmpty ∨
          (List.replicate k dotDot ++ (rest ++ [name])).getLast? = some dotDot) := by
        have hname := hnames name (by simp)
        simpa using hname.2.2.2
      rw [if_neg hlast, ← append_assoc, dropLast_concat]
      exact .inr (.inl ⟨hup, rest, name, rfl, rfl⟩)
  · rw [if_neg hup]
    by_cases hdot : p = dot
    · rw [if_neg (not_not.mpr hdot)]
      exact .inr (.inr (.inl ⟨hdot, rfl⟩))
    · rw [if_pos hdot, append_assoc]
      exact .inr (.inr (.inr ⟨hup, hdot, rfl⟩))

lemma Formatted.step (h : Formatted q) {p : Component} (hne : p ≠ [])
    (hslash : slash ∉ p) : Formatted (appendStep q p) := by
  obtain ⟨k, names, rfl, hnames⟩ := h
  rcases appendStep_cases (k := k) hnames p with
    ⟨-, -, heq⟩ | ⟨-, rest, name, rfl, heq⟩ | ⟨-, heq⟩ | ⟨hup, hdot, heq⟩
  · exact ⟨k + 1, [], heq.trans (append_nil _).symm, nofun⟩
  · exact ⟨k, rest, heq, fun c hc => hnames c (mem_append_left _ hc)⟩
  · exact ⟨k, names, heq, hnames⟩
  · refine ⟨k, names ++ [p], heq, ?_⟩
    intro c hc
    rcases mem_append.mp hc with hc | hc
    · exact hnames c hc
    · rw [mem_singleton.mp hc]
      exact ⟨hne, hslash, hdot, hup⟩

lemma walk_append (place : List Component) (q q' : List Component) :
    walk place (q ++ q') = walk (walk place q) q' := foldl_append

lemma walk_singleton (place : List Component) (c : Component) : walk place [c] = go place c := rfl

lemma go_ordinary {c : Component} (h : Ordinary c) (place : List Component) :
    go place c = place ++ [c] := by
  rw [go, if_neg (not_or.mpr ⟨h.1, h.2.2.1⟩), if_neg h.2.2.2]

lemma go_dotDot (place : List Component) : go place dotDot = place.dropLast := rfl

lemma go_dot (place : List Component) : go place dot = place := rfl

lemma walk_step (h : Formatted q) (place : List Component) (p : Component) :
    walk place (appendStep q p) = go (walk place q) p := by
  obtain ⟨k, names, rfl, hnames⟩ := h
  rcases appendStep_cases (k := k) hnames p with
    ⟨rfl, rfl, heq⟩ | ⟨rfl, rest, name, rfl, heq⟩ | ⟨rfl, heq⟩ | ⟨-, -, heq⟩
  · rw [heq, append_nil, replicate_succ', walk_append]
    rfl
  · -- a name goes away with the `..` that would leave it
    rw [heq, ← append_assoc, walk_append place _ [name], walk_singleton,
      go_ordinary (hnames name (by simp)), go_dotDot, dropLast_concat]
  · rw [heq, go_dot]
  · rw [heq, ← append_assoc, walk_append place _ [p]]
    rfl

lemma foldl_appendStep {q' : List Component} (h : Formatted q)
    (hq' : ∀ c ∈ q', c ≠ [] ∧ slash ∉ c) : Formatted (q'.foldl appendStep q) ∧
      ∀ place, walk place (q'.foldl appendStep q) = walk (walk place q) q' := by
  induction q' generalizing q with
  | nil => exact ⟨h, fun _ => rfl⟩
  | cons c q' ih =>
    obtain ⟨hne, hslash⟩ := hq' c mem_cons_self
    obtain ⟨hformat, hwalk⟩ :=
      ih (h.step hne hslash) fun c hc => hq' c (mem_cons_of_mem _ hc)
    refine ⟨hformat, ?_⟩
    intro place
    rw [foldl_cons, hwalk, walk_step h place c]
    rfl

lemma walk_kept (place : List Component) (cs : List Component) :
    walk place (Text.kept true cs) = walk place cs := by
  induction cs generalizing place with
  | nil => rfl
  | cons c cs ih =>
    by_cases hc : c = []
    · subst hc
      exact ih place
    · have hkept : Text.kept true (c :: cs) = c :: Text.kept true cs := by
        simp [Text.kept, hc]
      rw [hkept]
      exact ih (go place c)

lemma walk_dropWhile_dot (place : List Component) (cs : List Component) :
    walk place (cs.dropWhile (· == dot)) = walk place cs := by
  induction cs with
  | nil => rfl
  | cons c cs ih =>
    rw [dropWhile_cons]
    split
    · rename_i hc
      rw [ih, LawfulBEq.eq_of_beq hc]
      rfl
    · rfl

lemma walk_root_dropWhile (q : List Component) :
    walk [] (q.dropWhile (· == dotDot)) = walk [] q := by
  induction q with
  | nil => rfl
  | cons c q ih =>
    rw [dropWhile_cons]
    split
    · rename_i hc
      rw [ih, LawfulBEq.eq_of_beq hc]
      rfl
    · rfl

variable {s e : List UInt8}

lemma mem_components {c : Component}
    (h : c ∈ (internalSplit (.char slash) s true).dropWhile (· == dot)) : c ≠ [] ∧ slash ∉ c := by
  have hmem := (dropWhile_suffix _).subset h
  rw [Text.internalSplit_char, Text.kept, if_pos rfl, mem_filter] at hmem
  exact ⟨by simpa using hmem.2, Text.not_mem_of_mem_splitOn hmem.1⟩

lemma walk_components (place : List Component) (s : List UInt8) :
    walk place ((internalSplit (.char slash) s true).dropWhile (· == dot)) =
      walk place (s.splitOn slash) := by
  rw [walk_dropWhile_dot, Text.internalSplit_char, walk_kept]

def components (s : List UInt8) : List Component :=
  (internalSplit (.char slash) s true).dropWhile (· == dot)

lemma ofString_eq (hs : s ≠ []) : ofString s = let q := (components s).foldl appendStep []
      if startsWithSlash s then ⟨slash :: internalJoin (.char slash) (q.dropWhile (· == dotDot))⟩
      else if q.isEmpty then ⟨dot⟩
      else ⟨internalJoin (.char slash) q⟩ := by
  have hempty : s.isEmpty = false := by simpa using hs
  have hq1 : (if !startsWithSlash s then internalSplit (.char slash) [] true else []) = [] := by
    split
    · rfl
    · rfl
  simp only [ofString, div, append, hempty, Bool.false_eq_true, if_false, hq1]
  rfl

lemma formatted_components (s : List UInt8) :
    Formatted ((components s).foldl appendStep []) ∧
      ∀ place, walk place ((components s).foldl appendStep []) = walk place (s.splitOn slash) := by
  obtain ⟨hformat, hwalk⟩ := foldl_appendStep formatted_nil fun c hc => mem_components (s := s) hc
  refine ⟨hformat, ?_⟩
  intro place
  exact (hwalk place).trans (walk_components place s)

lemma dropWhile_formatted (hnames : ∀ c ∈ names, Ordinary c) :
    (List.replicate k dotDot ++ names).dropWhile (· == dotDot) = names := by
  rw [dropWhile_append_of_pos (fun c hc => by simp [eq_of_mem_replicate hc])]
  cases names with
  | nil => rfl
  | cons c names =>
    simpa using (hnames c mem_cons_self).2.2.2

lemma proper_of_formatted (hnames : ∀ c ∈ names, Ordinary c) :
    ∀ c ∈ List.replicate k dotDot ++ names, c ≠ [] ∧ slash ∉ c := by
  intro c hc
  rcases mem_append.mp hc with hc | hc
  · rw [eq_of_mem_replicate hc]
    exact ⟨by decide, by decide⟩
  · exact ⟨(hnames c hc).1, (hnames c hc).2.1⟩

lemma join_eq (q : List Component) :
    internalJoin (.char slash) q = [slash].intercalate q := Text.internalJoin_eq _ q

lemma walk_splitOn_join (h : ∀ c ∈ q, c ≠ [] ∧ slash ∉ c)
    (place : List Component) : walk place (([slash].intercalate q).splitOn slash) = walk place q := by
  rw [← walk_kept, ← join_eq, Text.kept_splitOn_join h]

lemma join_ne_nil (h : ∀ c ∈ q, c ≠ [] ∧ slash ∉ c) (hq : q ≠ []) :
    [slash].intercalate q ≠ [] := by
  intro hnil
  have hsplit := Text.kept_splitOn_join h
  rw [join_eq, hnil] at hsplit
  exact hq hsplit.symm

lemma startsWithSlash_join (h : ∀ c ∈ q, c ≠ [] ∧ slash ∉ c) :
    startsWithSlash ([slash].intercalate q) = false := by
  cases q with
  | nil => rfl
  | cons c q =>
    obtain ⟨hne, hslash⟩ := h c mem_cons_self
    obtain ⟨b, c, rfl⟩ := exists_cons_of_ne_nil hne
    have hb : b ≠ slash := fun heq => hslash (heq ▸ mem_cons_self)
    cases q with
    | nil => simpa [startsWithSlash] using hb
    | cons d q => simpa [startsWithSlash, intercalate_cons_cons] using hb

lemma splitOn_cons_slash (s : List UInt8) : (slash :: s).splitOn slash = [] :: s.splitOn slash := by
  simp [splitOn_cons_eq_if_modifyHead]

lemma resolve_ofString (place : List Component) (s : List UInt8) :
    resolve place (ofString s).path = resolve place s := by
  by_cases hs : s = []
  · subst hs
    rfl
  · obtain ⟨⟨k, names, hq, hnames⟩, hwalk⟩ := formatted_components s
    have hproper := proper_of_formatted (k := k) hnames
    rw [ofString_eq hs]
    by_cases habs : startsWithSlash s = true
    · have hroot := hwalk []
      rw [if_pos habs, resolve, resolve, if_pos habs, ← hroot, ← walk_root_dropWhile, hq,
        dropWhile_formatted hnames, join_eq, splitOn_cons_slash]
      exact walk_splitOn_join (fun c hc => hproper c (mem_append_right _ hc)) []
    · have hthere := hwalk place
      rw [if_neg habs, resolve, resolve, if_neg habs, ← hthere]
      split
      · rename_i hnil
        rw [isEmpty_iff.mp hnil]
        rfl
      · rw [hq, join_eq, startsWithSlash_join hproper, if_neg Bool.false_ne_true]
        exact walk_splitOn_join hproper place

lemma canonical_ofString (s : List UInt8) : Canonical (ofString s).path := by
  by_cases hs : s = []
  · subst hs
    exact .empty
  · obtain ⟨⟨k, names, hq, hnames⟩, -⟩ := formatted_components s
    rw [ofString_eq hs]
    dsimp only
    split
    · rw [hq, dropWhile_formatted hnames, join_eq]
      exact .absolute names hnames
    · split
      · exact .here
      · rename_i hne
        rw [hq] at hne ⊢
        rw [join_eq]
        exact .relative k names hnames (by simpa using hne)

lemma startsWithSlash_ofString (s : List UInt8) :
    startsWithSlash (ofString s).path = startsWithSlash s := by
  by_cases hs : s = []
  · subst hs
    rfl
  · obtain ⟨⟨k, names, hq, hnames⟩, -⟩ := formatted_components s
    rw [ofString_eq hs]
    dsimp only
    split
    · rename_i habs
      rw [habs]
      rfl
    · rename_i habs
      rw [Bool.not_eq_true] at habs
      rw [habs]
      split
      · rfl
      · rw [hq, join_eq]
        exact startsWithSlash_join (proper_of_formatted hnames)

lemma components_join (h : ∀ c ∈ q, c ≠ [] ∧ slash ∉ c)
    (hdot : ∀ c ∈ q.head?, c ≠ dot) : components ([slash].intercalate q) = q := by
  rw [components, Text.internalSplit_char, ← join_eq, Text.kept_splitOn_join h]
  cases q with
  | nil => rfl
  | cons c q => exact dropWhile_cons_of_neg (by simpa using hdot c rfl)

lemma components_cons_slash (s : List UInt8) : components (slash :: s) = components s := by
  rw [components, components, Text.internalSplit_char, Text.internalSplit_char, splitOn_cons_slash]
  rfl

lemma foldl_names {before : List Component} (hbefore : ∀ c ∈ before, Ordinary c)
    (hnames : ∀ c ∈ names, Ordinary c) :
    names.foldl appendStep (List.replicate k dotDot ++ before) =
      List.replicate k dotDot ++ (before ++ names) := by
  induction names generalizing before with
  | nil => simp
  | cons c names ih =>
    have hc := hnames c mem_cons_self
    have hstep : appendStep (List.replicate k dotDot ++ before) c =
        List.replicate k dotDot ++ (before ++ [c]) := by
      rw [appendStep, if_neg hc.2.2.2, if_pos hc.2.2.1, append_assoc]
    rw [foldl_cons, hstep, ih _ fun c hc => hnames c (mem_cons_of_mem _ hc)]
    · simp
    · intro d hd
      rcases mem_append.mp hd with hd | hd
      · exact hbefore d hd
      · rw [mem_singleton.mp hd]
        exact hc

lemma foldl_dotDots (j k : Nat) :
    (List.replicate k dotDot).foldl appendStep (List.replicate j dotDot) =
      List.replicate (j + k) dotDot := by
  induction k generalizing j with
  | zero => rfl
  | succ k ih =>
    have hstep : appendStep (List.replicate j dotDot) dotDot = List.replicate (j + 1) dotDot := by
      have hnone : ∀ c ∈ ([] : List Component), Ordinary c := nofun
      rcases appendStep_cases (k := j) hnone dotDot with
        ⟨-, -, heq⟩ | ⟨-, rest, name, hnil, -⟩ | ⟨hdot, -⟩ | ⟨hne, -, -⟩
      · rw [append_nil] at heq
        exact heq
      · cases rest <;> cases hnil
      · exact absurd hdot (by decide)
      · exact absurd rfl hne
    rw [replicate_succ, foldl_cons, hstep, ih]
    congr 1
    omega

lemma foldl_formatted (hnames : ∀ c ∈ names, Ordinary c) :
    (List.replicate k dotDot ++ names).foldl appendStep [] = List.replicate k dotDot ++ names := by
  have hdots := foldl_dotDots 0 k
  have hnone : ∀ c ∈ ([] : List Component), Ordinary c := nofun
  have hrest := foldl_names (k := k) hnone hnames
  rw [Nat.zero_add] at hdots
  rw [append_nil] at hrest
  rw [foldl_append]
  show List.foldl appendStep (List.foldl appendStep (List.replicate 0 dotDot) _) names = _
  rw [hdots, hrest]
  rfl

lemma ofString_of_canonical {r : List UInt8} (h : Canonical r) : ofString r = ⟨r⟩ := by
  cases h with
  | empty => rfl
  | absolute names ordinary =>
    have hq : (components (slash :: [slash].intercalate names)).foldl appendStep [] = names := by
      rw [components_cons_slash, components_join]
      · exact foldl_formatted (k := 0) ordinary
      · exact fun c hc => ⟨(ordinary c hc).1, (ordinary c hc).2.1⟩
      · exact fun c hc => (ordinary c (mem_of_mem_head? hc)).2.2.1
    have hstart : startsWithSlash (slash :: [slash].intercalate names) = true := rfl
    have hdrop := dropWhile_formatted (k := 0) ordinary
    rw [replicate_zero, nil_append] at hdrop
    rw [ofString_eq (cons_ne_nil _ _)]
    rw [hq, if_pos hstart, hdrop, join_eq]
  | here =>
    have hq : (components dot).foldl appendStep [] = [] := by
      rw [components, Text.internalSplit_char]
      decide
    rw [ofString_eq (by decide)]
    rw [hq]
    rfl
  | relative k names ordinary nonempty =>
    have hproper := proper_of_formatted (k := k) ordinary
    have hq : (components ([slash].intercalate (List.replicate k dotDot ++ names))).foldl
        appendStep [] = List.replicate k dotDot ++ names := by
      rw [components_join hproper]
      · exact foldl_formatted ordinary
      · intro c hc
        rcases mem_append.mp (mem_of_mem_head? hc) with hc | hc
        · rw [eq_of_mem_replicate hc]
          decide
        · exact (ordinary c hc).2.2.1
    rw [ofString_eq (join_ne_nil hproper nonempty)]
    rw [hq, startsWithSlash_join hproper, if_neg Bool.false_ne_true,
      if_neg (by simpa using nonempty), join_eq]

lemma ofString_ne_nil (hs : s ≠ []) : (ofString s).path ≠ [] := by
  obtain ⟨⟨k, names, hq, hnames⟩, -⟩ := formatted_components s
  rw [ofString_eq hs]
  dsimp only
  split
  · exact cons_ne_nil _ _
  · split
    · exact cons_ne_nil _ _
    · rename_i hne
      rw [hq] at hne ⊢
      rw [join_eq]
      exact join_ne_nil (proper_of_formatted hnames) (by simpa using hne)

theorem ofString_canonical (s : List UInt8) :
    Canonical (ofString s).path ∧ (ofString s).isAbsolute = startsWithSlash s ∧
      ((ofString s).path = [] ↔ s = []) ∧
      (∀ place, resolve place (ofString s).path = resolve place s) ∧
      ofString (ofString s).path = ofString s := by
  refine ⟨canonical_ofString s, startsWithSlash_ofString s, ⟨?_, ?_⟩,
    fun place => resolve_ofString place s, ofString_of_canonical (canonical_ofString s)⟩
  · intro hnil
    by_contra hs
    exact ofString_ne_nil hs hnil
  · rintro rfl
    rfl

lemma getElem?_of_rfind {sp : List UInt8} {c : UInt8} {p : Nat} (h : rfind sp c = some p) :
    sp[p]? = some c := by
  rw [rfind, Option.map_eq_some_iff] at h
  obtain ⟨i, hi, rfl⟩ := h
  rw [findIdx?_eq_some_iff_getElem] at hi
  obtain ⟨hlt, hc, -⟩ := hi
  rw [length_reverse] at hlt
  rw [getElem_reverse, beq_iff_eq] at hc
  rw [getElem?_eq_getElem (by omega), hc]

lemma ext_eq (self : Path) : self.ext = [] ∨ ∃ e, self.ext = 46 :: e := by
  rw [ext]
  split
  · exact .inl rfl
  · split
    · rename_i p hp
      split
      · have hget := getElem?_of_rfind hp
        obtain ⟨hlt, hdot⟩ := List.getElem?_eq_some_iff.mp hget
        exact .inr ⟨_, by rw [List.drop_eq_getElem_cons hlt, hdot]⟩
      · exact .inl rfl
    · exact .inl rfl

lemma ordinary_append {c e : Component} (hc : c ≠ []) (hslash : slash ∉ c)
    (he : Ordinary (46 :: e)) : Ordinary (c ++ 46 :: e) := by
  have hne : e ≠ [] := by
    rintro rfl
    exact he.2.2.1 rfl
  have hlen : 3 ≤ (c ++ 46 :: e).length := by
    have hcpos := length_pos_iff.mpr hc
    have hepos := length_pos_iff.mpr hne
    rw [length_append, length_cons]
    omega
  refine ⟨?_, ?_, ?_, ?_⟩
  · simp
  · intro hmem
    rcases mem_append.mp hmem with hmem | hmem
    · exact hslash hmem
    · exact he.2.1 hmem
  · intro heq
    rw [heq] at hlen
    exact absurd hlen (by decide)
  · intro heq
    rw [heq] at hlen
    exact absurd hlen (by decide)

lemma join_concat_append (q : List Component) (c x : Component) :
    [slash].intercalate (q ++ [c]) ++ x = [slash].intercalate (q ++ [c ++ x]) := by
  induction q with
  | nil => simp
  | cons d q ih =>
    obtain ⟨b, q', hb⟩ : ∃ b q', q ++ [c] = b :: q' := exists_cons_of_ne_nil (by simp)
    obtain ⟨b', q'', hb'⟩ : ∃ b q', q ++ [c ++ x] = b :: q' :=
      exists_cons_of_ne_nil (by simp)
    rw [cons_append, cons_append, hb, hb', intercalate_cons_cons,
      intercalate_cons_cons, ← hb, ← hb', ← ih, append_assoc, append_assoc]

lemma Canonical.append {p : List UInt8} (h : Canonical p) (he : Ordinary (46 :: e)) :
    Canonical (p ++ 46 :: e) := by
  have hname : ∀ (names : List Component) (c : Component), (∀ d ∈ names, Ordinary d) → c ≠ [] →
      slash ∉ c → ∀ d ∈ names ++ [c ++ 46 :: e], Ordinary d := by
    intro names c hnames hc hslash d hd
    rcases mem_append.mp hd with hd | hd
    · exact hnames d hd
    · rw [mem_singleton.mp hd]
      exact ordinary_append hc hslash he
  have hone : ∀ d ∈ [46 :: e], Ordinary d := by
    intro d hd
    rw [mem_singleton.mp hd]
    exact he
  cases h with
  | empty =>
    have hrel := Canonical.relative 0 [46 :: e] hone (by simp)
    simpa using hrel
  | absolute names ordinary =>
    rcases eq_nil_or_concat' names with rfl | ⟨rest, c, rfl⟩
    · have habs := Canonical.absolute [46 :: e] hone
      simpa using habs
    · have hc := ordinary c (by simp)
      rw [cons_append, join_concat_append]
      exact .absolute _ (hname rest c (fun d hd => ordinary d (by simp [hd])) hc.1 hc.2.1)
  | here =>
    have hrel := Canonical.relative 0 _ (hname [] dot nofun (by decide) (by decide)) (by simp)
    simpa using hrel
  | relative k names ordinary nonempty =>
    rcases eq_nil_or_concat' names with rfl | ⟨rest, c, rfl⟩
    · -- the last component is `..`, and with the extension it is a name
      obtain ⟨k, rfl⟩ : ∃ j, k = j + 1 := by
        cases k with
        | zero => exact absurd rfl nonempty
        | succ k => exact ⟨k, rfl⟩
      rw [append_nil, replicate_succ', join_concat_append]
      exact .relative k _ (hname [] dotDot nofun (by decide) (by decide)) (by simp)
    · have hc := ordinary c (by simp)
      rw [← append_assoc, join_concat_append, append_assoc]
      exact .relative k _ (hname rest c (fun d hd => ordinary d (by simp [hd])) hc.1 hc.2.1) (by simp)

lemma add_path {self : Path} (h : Canonical self.path)
    (he : Ordinary (46 :: e)) : (self.add (46 :: e)).path = self.path ++ 46 :: e := by
  rw [add, ofString_of_canonical (h.append he)]

end Path
end Acc.Io
