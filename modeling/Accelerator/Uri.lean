import Accelerator.Regex
import Accelerator.Conv.Numeral
import Accelerator.Text.UriEscape

namespace Acc

open Function
open List hiding Vector map_map
open Option hiding map_map

open Regex Decimal

structure Uri where
  scheme : List UInt8
  username : List UInt8
  password : List UInt8
  host : List UInt8
  hasAuthority : Bool
  port : BitVec 16
  path : List UInt8
  query : List UInt8
  fragment : List UInt8
  deriving DecidableEq, Repr

namespace Uri

def isAlpha (c : UInt8) : Bool := (97 ≤ c && c ≤ 122) || (65 ≤ c && c ≤ 90)

def isSchemeChar (c : UInt8) : Bool := isAlpha c || isDigit c || c == 43 || c == 46 || c == 45

def fragmentRegex : Regex UInt8 := opt (seq (char 35) (group 4 (manyExcept [])))

def queryAndFragmentRegex : Regex UInt8 :=
  seq (opt (seq (char 63) (group 3 (manyExcept [35])))) fragmentRegex

def schemeRegex : Regex UInt8 := group 1 (seq (one isAlpha) (many isSchemeChar))

def uriRegex : Regex UInt8 :=
  seq schemeRegex
    (seq (char 58) (seq (group 2 (manyExcept [63, 35])) queryAndFragmentRegex))

def pathRegex : Regex UInt8 := opt (group 2 (seq (char 47) (manyExcept [])))

def authorityAndPathRegex : Regex UInt8 :=
  seq (char 47) (seq (char 47) (seq (group 1 (manyExcept [47])) pathRegex))

def userInfoRegex : Regex UInt8 :=
  seq (group 1 (manyExcept [64, 58])) (seq (opt (seq (char 58) (group 2 (manyExcept [64])))) (char 64))

def hostRegex : Regex UInt8 :=
  group 3 (alt (seq (char 91) (seq (manyExcept [93]) (char 93))) (manyExcept [91, 58]))

def portRegex : Regex UInt8 := opt (seq (char 58) (group 4 (many isDigit)))

def authorityRegex : Regex UInt8 := seq (opt userInfoRegex) (seq hostRegex portRegex)

def lower (c : UInt8) : UInt8 := if 65 ≤ c && c ≤ 90 then c + 32 else c

def toLower (s : List UInt8) : List UInt8 := s.map lower

inductive Failure
  | invalidArgument (what : String) (str : List UInt8)
  | conversion (e : Conv.RangeError)
  deriving DecidableEq, Repr

def portType : Conv.IntType := ⟨.w16, false⟩

def parsePort (port : List UInt8) : Except Conv.RangeError (BitVec 16) :=
  if port.isEmpty then .ok 0 else Conv.toIntegral portType port

def ofAuthority (scheme authority path query fragment : List UInt8) : Except Failure Uri :=
  match fullMatch authorityRegex authority with
  | none => .error (.invalidArgument "invalid URI authority " authority)
  | some m =>
    match parsePort (m 4) with
    | .error e => .error (.conversion e)
    | .ok port => .ok {
        scheme, username := m 1, password := m 2, host := m 3, hasAuthority := true, port, path,
        query, fragment }

def ofString (str : List UInt8) : Except Failure Uri :=
  match fullMatch uriRegex str with
  | none => .error (.invalidArgument "invalid URI " str)
  | some m =>
    match fullMatch authorityAndPathRegex (m 2) with
    | none => .ok {
        scheme := toLower (m 1), username := [], password := [], host := [], hasAuthority := false,
        port := 0, path := m 2, query := m 3, fragment := m 4 }
    | some a => ofAuthority (toLower (m 1)) (a 1) (a 2) (m 3) (m 4)

def userInfo (u : Uri) : List UInt8 :=
  if !u.password.isEmpty then u.username ++ 58 :: u.password ++ [64]
  else if !u.username.isEmpty then u.username ++ [64]
  else []

def portText (u : Uri) (buffer : Vector UInt8 20) : List UInt8 :=
  if u.port ≠ 0 then 58 :: Conv.toAppend portType u.port buffer.toList else []

def toString (u : Uri) (buffer : Vector UInt8 20) : List UInt8 :=
  (if u.hasAuthority then u.scheme ++ [58, 47, 47] ++ u.userInfo ++ u.host ++ u.portText buffer
    else u.scheme ++ [58]) ++ u.path ++
  (if !u.query.isEmpty then 63 :: u.query else []) ++
  (if !u.fragment.isEmpty then 35 :: u.fragment else [])

def authority (u : Uri) (buffer : Vector UInt8 20) : List UInt8 :=
  (if !u.username.isEmpty || !u.password.isEmpty then
    u.username ++ (if !u.password.isEmpty then 58 :: u.password else []) ++ [64]
  else []) ++ u.host ++ u.portText buffer

def asTuple (u : Uri) :=
  (u.scheme, u.username, u.password, u.host, u.port, u.path, u.query, u.fragment)

def captureOpt (m : Captures UInt8) (n : Nat) : Option (List UInt8) → Captures UInt8
  | none => m
  | some s => Function.update m n s

lemma captureOpt_apply (m : Captures UInt8) (n : Nat) (s : Option (List UInt8)) (k : Nat) :
    captureOpt m n s k = if k = n then s.getD (m n) else m k := by
  cases s with
  | none => by_cases h : k = n <;> simp [captureOpt, h]
  | some s => simp [captureOpt, update_apply]

def queryPart : Option (List UInt8) → List UInt8
  | none => []
  | some q => 63 :: q

def fragmentPart : Option (List UInt8) → List UInt8
  | none => []
  | some f => 35 :: f

lemma tryMatch_rest (n : Nat) (s : List UInt8) (m : Captures UInt8) :
    (group n (manyExcept [])).tryMatch s m atEnd = some (update m n s) := by
  have h : (group n (manyExcept [])).tryMatch (s ++ []) m atEnd = atEnd [] (update m n s) :=
    tryMatch_group_manyExcept (fun _ _ _ _ => rfl) (fun _ _ => not_mem_nil) nofun m n
  rwa [append_nil] at h

lemma tryMatch_fragment (f : Option (List UInt8)) (m : Captures UInt8) :
    fragmentRegex.tryMatch (fragmentPart f) m atEnd = some (captureOpt m 4 f) := by
  cases f with
  | none => rfl
  | some f => rw [fragmentRegex, tryMatch_opt, tryMatch_seq, fragmentPart, tryMatch_char_self,
      tryMatch_rest, some_or, captureOpt]

variable {c : UInt8}

lemma tryMatch_fragment_other (hc : c ≠ 35) (s : List UInt8) (m : Captures UInt8) :
    fragmentRegex.tryMatch (c :: s) m atEnd = none := by
  rw [fragmentRegex, tryMatch_opt, tryMatch_seq, tryMatch_char_of_ne _ _ _ hc, none_or,
    atEnd_cons]

variable {q p pass : Option (List UInt8)}

lemma tryMatch_queryAndFragment (hq : ∀ c ∈ q.getD [], c ∉ [35])
    (f : Option (List UInt8)) (m : Captures UInt8) :
    queryAndFragmentRegex.tryMatch (queryPart q ++ fragmentPart f) m atEnd
      = some (captureOpt (captureOpt m 3 q) 4 f) := by
  rw [queryAndFragmentRegex, tryMatch_seq, tryMatch_opt, tryMatch_seq]
  cases q with
  | none =>
    cases f with
    | none => rfl
    | some f =>
      exact tryMatch_fragment (some f) m
  | some q =>
    have hend : ∀ c ∈ (fragmentPart f).head?, c ∈ [35] := by
      cases f <;> simp [fragmentPart]
    have hrun : ∀ c ∈ q, c ∉ [35] := hq
    rw [queryPart, cons_append, tryMatch_char_self, tryMatch_group_manyExcept _ hrun hend,
      tryMatch_fragment, some_or, captureOpt]
    exact fun c s m hc => tryMatch_fragment_other (by simpa using hc) s m

lemma tryMatch_queryAndFragment_other (hc : c ∉ [63, 35]) (s : List UInt8)
    (m : Captures UInt8) : queryAndFragmentRegex.tryMatch (c :: s) m atEnd = none := by
  obtain ⟨h63, h35⟩ : c ≠ 63 ∧ c ≠ 35 := by simpa using hc
  rw [queryAndFragmentRegex, tryMatch_seq, tryMatch_opt, tryMatch_seq, tryMatch_char_of_ne _ _ _ h63,
    none_or, tryMatch_fragment_other h35]

def IsScheme (s : List UInt8) : Prop :=
  ∃ c t, s = c :: t ∧ isAlpha c = true ∧ ∀ d ∈ t, isSchemeChar d = true

lemma ne_colon_of_isSchemeChar (h : isSchemeChar c = true) : c ≠ 58 := by
  rintro rfl
  cases h

variable {scheme b ap s auth path h user t a : List UInt8}

lemma tryMatch_scheme {k : List UInt8 → Captures UInt8 → Option (Captures UInt8)}
    (hk : ∀ c s m, isSchemeChar c = true → k (c :: s) m = none)
    (hscheme : IsScheme scheme) (hb : ∀ c ∈ b.head?, isSchemeChar c = false) (m : Captures UInt8) :
    schemeRegex.tryMatch (scheme ++ b) m k = k b (update m 1 scheme) := by
  obtain ⟨c, t, rfl, hc, ht⟩ := hscheme
  rw [schemeRegex, tryMatch_group, tryMatch_seq, cons_append, tryMatch_one_of_pos _ _ _ hc,
    tryMatch_many _ ht hb, ← cons_append, take_length_sub]
  exact fun c s m hc => hk c s _ hc

lemma head_queryPart_append (q f : Option (List UInt8)) :
    ∀ c ∈ (queryPart q ++ fragmentPart f).head?, c ∈ [63, 35] := by
  cases q <;> cases f <;> simp [queryPart, fragmentPart]

lemma fullMatch_uri (hscheme : IsScheme scheme)
    (hap : ∀ c ∈ ap, c ∉ [63, 35]) (hq : ∀ c ∈ q.getD [], c ∉ [35]) (f : Option (List UInt8)) :
    fullMatch uriRegex (scheme ++ 58 :: (ap ++ (queryPart q ++ fragmentPart f)))
      = some (captureOpt (captureOpt (update (update (fun _ => []) 1 scheme) 2 ap) 3 q) 4 f) := by
  have hcolon : ∀ c ∈ (58 :: (ap ++ (queryPart q ++ fragmentPart f))).head?, isSchemeChar c = false := by
    simp [isSchemeChar, isAlpha, isDigit]
  rw [fullMatch, uriRegex, tryMatch_seq, tryMatch_scheme _ hscheme hcolon]
  · rw [tryMatch_seq, tryMatch_char_self, tryMatch_seq,
      tryMatch_group_manyExcept _ hap (head_queryPart_append q f), tryMatch_queryAndFragment hq]
    exact fun c s m hc => tryMatch_queryAndFragment_other hc s m
  · intro d s m hd
    rw [tryMatch_seq, tryMatch_char_of_ne _ _ _ (ne_colon_of_isSchemeChar hd)]

lemma exists_query (hb : ∀ c ∈ b.head?, c ∈ [63, 35]) :
    ∃ q f, b = queryPart q ++ fragmentPart f ∧ ∀ c ∈ q.getD [], c ∉ [35] := by
  have hfragment : ∀ b : List UInt8, (∀ c ∈ b.head?, c ∈ [35]) → ∃ f, b = fragmentPart f := by
    intro b hb
    cases b with
    | nil => exact ⟨none, rfl⟩
    | cons c b =>
      obtain rfl : c = 35 := by simpa using hb
      exact ⟨some b, rfl⟩
  cases b with
  | nil => exact ⟨none, none, rfl, nofun⟩
  | cons c b =>
    obtain rfl | rfl : c = 63 ∨ c = 35 := by simpa using hb
    · obtain ⟨q, b, rfl, hq, hb⟩ := exists_run_except [35] b
      obtain ⟨f, rfl⟩ := hfragment b hb
      exact ⟨some q, f, rfl, hq⟩
    · exact ⟨none, some b, rfl, nofun⟩

variable {m m' : Captures UInt8}

lemma exists_of_fullMatch_uri (h : fullMatch uriRegex s = some m) : ∃ scheme ap q f,
      s = scheme ++ 58 :: (ap ++ (queryPart q ++ fragmentPart f)) ∧ IsScheme scheme ∧
      (∀ c ∈ ap, c ∉ [63, 35]) ∧ ∀ c ∈ q.getD [], c ∉ [35] := by
  cases s with
  | nil => cases h
  | cons c t =>
    by_cases hc : isAlpha c = true
    · obtain ⟨t, b, rfl, ht, hb⟩ := exists_run isSchemeChar t
      have hscheme : IsScheme (c :: t) := ⟨c, t, rfl, hc, ht⟩
      rw [fullMatch, uriRegex, tryMatch_seq, ← cons_append, tryMatch_scheme _ hscheme hb] at h
      · cases b with
        | nil => cases h
        | cons d b =>
          by_cases hd : d = 58
          · subst hd
            obtain ⟨ap, b, rfl, hap, hb⟩ := exists_run_except [63, 35] b
            obtain ⟨q, f, rfl, hq⟩ := exists_query hb
            exact ⟨c :: t, ap, q, f, rfl, hscheme, hap, hq⟩
          · rw [tryMatch_seq, tryMatch_char_of_ne _ _ _ hd] at h
            cases h
      · intro d s m hd
        rw [tryMatch_seq, tryMatch_char_of_ne _ _ _ (ne_colon_of_isSchemeChar hd)]
    · rw [fullMatch, uriRegex, tryMatch_seq, schemeRegex, tryMatch_group, tryMatch_seq, tryMatch,
        if_neg hc] at h
      cases h

lemma fullMatch_authorityAndPath (hauth : ∀ c ∈ auth, c ∉ [47])
    (hpath : ∀ c ∈ path.head?, c ∈ [47]) : ∃ m,
      fullMatch authorityAndPathRegex (47 :: 47 :: (auth ++ path)) = some m ∧ m 1 = auth ∧ m 2 = path := by
  have hrest : ∀ m : Captures UInt8, m 2 = [] → ∃ m', pathRegex.tryMatch path m atEnd = some m' ∧
      m' 1 = m 1 ∧ m' 2 = path := by
    intro m hm
    cases path with
    | nil => exact ⟨m, rfl, rfl, hm⟩
    | cons c path =>
      obtain rfl : c = 47 := by simpa using hpath
      have hall : (manyExcept []).tryMatch (path ++ []) m (fun s' m => atEnd s' (update m 2
          ((47 :: path).take ((47 :: path).length - s'.length)))) = _ :=
        tryMatch_manyExcept (fun _ _ _ _ => rfl) (fun _ _ => not_mem_nil) nofun m
      rw [append_nil] at hall
      refine ⟨update m 2 (47 :: path), ?_, update_of_ne (by decide) _ _,
        update_self ..⟩
      rw [pathRegex, tryMatch_opt, tryMatch_group, tryMatch_seq, tryMatch_char_self, hall,
        length_nil, Nat.sub_zero, take_length]
      rfl
  obtain ⟨m, hm, h₁, h₂⟩ := hrest (update (fun _ => []) 1 auth)
    (update_of_ne (by decide) _ _)
  refine ⟨m, ?_, by rw [h₁, update_self], h₂⟩
  rw [fullMatch, authorityAndPathRegex, tryMatch_seq, tryMatch_char_self, tryMatch_seq,
    tryMatch_char_self, tryMatch_seq, tryMatch_group_manyExcept _ hauth hpath, hm]
  intro c s m hc
  have hc' : c ≠ 47 := by simpa using hc
  rw [pathRegex, tryMatch_opt, tryMatch_group, tryMatch_seq, tryMatch_char_of_ne _ _ _ hc',
    none_or, atEnd_cons]

lemma exists_authority (s : List UInt8) : (∃ auth path, s = 47 :: 47 :: (auth ++ path) ∧
      (∀ c ∈ auth, c ∉ [47]) ∧ ∀ c ∈ path.head?, c ∈ [47]) ∨
    fullMatch authorityAndPathRegex s = none := by
  by_cases hs : ∃ t, s = 47 :: 47 :: t
  · obtain ⟨t, rfl⟩ := hs
    obtain ⟨auth, path, rfl, hauth, hpath⟩ := exists_run_except [47] t
    exact .inl ⟨auth, path, rfl, hauth, hpath⟩
  right
  rw [fullMatch, authorityAndPathRegex, tryMatch_seq]
  match s with
  | [] => rfl
  | c :: s =>
    by_cases hc : c = 47
    · subst hc
      rw [tryMatch_char_self, tryMatch_seq]
      match s with
      | [] => rfl
      | d :: s =>
        rw [tryMatch_char_of_ne _ _ _ fun hd => hs ⟨s, by rw [hd]⟩]
    · rw [tryMatch_char_of_ne _ _ _ hc]

def portPart : Option (List UInt8) → List UInt8
  | none => []
  | some p => 58 :: p

def HostText (h : List UInt8) : Prop :=
  (∃ w, h = 91 :: (w ++ [93]) ∧ ∀ c ∈ w, c ∉ [93]) ∨ ∀ c ∈ h, c ∉ [91, 58]

def hostAndPortRegex : Regex UInt8 := seq hostRegex portRegex

lemma tryMatch_port (hp : ∀ c ∈ p.getD [], isDigit c = true)
    (m : Captures UInt8) : portRegex.tryMatch (portPart p) m atEnd = some (captureOpt m 4 p) := by
  cases p with
  | none => rfl
  | some p =>
    have hall : (group 4 (many isDigit)).tryMatch (p ++ []) m atEnd = _ :=
      tryMatch_group_many (b := []) (fun _ _ _ _ => rfl) 4 hp nofun m
    rw [append_nil] at hall
    rw [portRegex, tryMatch_opt, tryMatch_seq, portPart, tryMatch_char_self, hall]
    rfl

lemma tryMatch_port_other (hc : c ≠ 58) (s : List UInt8) (m : Captures UInt8) :
    portRegex.tryMatch (c :: s) m atEnd = none := by
  rw [portRegex, tryMatch_opt, tryMatch_seq, tryMatch_char_of_ne _ _ _ hc, none_or, atEnd_cons]

lemma exists_of_tryMatch_port (h : portRegex.tryMatch s m atEnd = some m') :
    ∃ p, s = portPart p ∧ ∀ c ∈ p.getD [], isDigit c = true := by
  cases s with
  | nil => exact ⟨none, rfl, nofun⟩
  | cons c s =>
    by_cases hc : c = 58
    · subst hc
      obtain ⟨p, b, rfl, hp, hb⟩ := exists_run isDigit s
      rw [portRegex, tryMatch_opt, tryMatch_seq, tryMatch_char_self,
        tryMatch_group_many (fun _ _ _ _ => rfl) 4 hp hb, atEnd_cons, or_none] at h
      cases b with
      | nil => exact ⟨some p, by rw [append_nil]; rfl, hp⟩
      | cons d b => cases h
    · rw [tryMatch_port_other hc] at h
      cases h

lemma tryMatch_hostAndPort (hh : HostText h)
    (hp : ∀ c ∈ p.getD [], isDigit c = true) (m : Captures UInt8) :
    hostAndPortRegex.tryMatch (h ++ portPart p) m atEnd = some (captureOpt (update m 3 h) 4 p) := by
  rw [hostAndPortRegex, tryMatch_seq, hostRegex, tryMatch_group, tryMatch_alt]
  obtain ⟨w, rfl, hw⟩ | hplain := hh
  · have hend : ∀ c ∈ (93 :: portPart p).head?, c ∈ [93] := by simp
    have hsplit : 91 :: (w ++ [93]) ++ portPart p = 91 :: (w ++ 93 :: portPart p) := by simp
    rw [tryMatch_seq, hsplit, tryMatch_char_self, tryMatch_seq, tryMatch_manyExcept _ hw hend,
      tryMatch_char_self, tryMatch_port hp, some_or]
    · rw [← hsplit, take_length_sub]
    · intro c s m hc
      rw [tryMatch_char_of_ne _ _ _ (by simpa using hc)]
  have hend : ∀ c ∈ (portPart p).head?, c ∈ [91, 58] := by
    cases p <;> simp [portPart]
  have hother : (seq (char 91) (seq (manyExcept [93]) (char 93))).tryMatch (h ++ portPart p) m
      (fun s' m' => portRegex.tryMatch s' (update m' 3
        ((h ++ portPart p).take ((h ++ portPart p).length - s'.length))) atEnd) = none := by
    rw [tryMatch_seq]
    cases h with
    | nil =>
      cases p with
      | none | some p => rfl
    | cons c h =>
      have hc : c ≠ 91 := fun e => hplain c mem_cons_self (by simp [e])
      rw [cons_append, tryMatch_char_of_ne _ _ _ hc]
  rw [hother, none_or, tryMatch_manyExcept _ hplain hend, take_length_sub, tryMatch_port hp]
  intro c s m hc
  rw [tryMatch_port_other]
  rintro rfl
  exact hc (by simp)

lemma exists_of_tryMatch_hostAndPort (h : hostAndPortRegex.tryMatch s m atEnd = some m') :
    ∃ h p, s = h ++ portPart p ∧ HostText h ∧ ∀ c ∈ p.getD [], isDigit c = true := by
  rw [hostAndPortRegex, tryMatch_seq, hostRegex, tryMatch_group, tryMatch_alt, or_eq_some_iff] at h
  obtain h | ⟨-, h⟩ := h
  · rw [tryMatch_seq] at h
    cases s with
    | nil => cases h
    | cons c s =>
      by_cases hc : c = 91
      · subst hc
        obtain ⟨w, b, rfl, hw, hb⟩ := exists_run_except [93] s
        rw [tryMatch_char_self, tryMatch_seq, tryMatch_manyExcept _ hw hb] at h
        · cases b with
          | nil => cases h
          | cons d b =>
            obtain rfl : d = 93 := by simpa using hb
            obtain ⟨p, rfl, hp⟩ := exists_of_tryMatch_port h
            exact ⟨91 :: (w ++ [93]), p, by simp, .inl ⟨w, rfl, hw⟩, hp⟩
        · intro c s m hc
          rw [tryMatch_char_of_ne _ _ _ (by simpa using hc)]
      · rw [tryMatch_char_of_ne _ _ _ hc] at h
        cases h
  obtain ⟨w, b, rfl, hw, hb⟩ := exists_run_except [91, 58] s
  rw [tryMatch_manyExcept _ hw hb] at h
  · obtain ⟨p, rfl, hp⟩ := exists_of_tryMatch_port h
    exact ⟨w, p, rfl, .inr hw, hp⟩
  intro c s m hc
  rw [tryMatch_port_other]
  rintro rfl
  exact hc (by simp)

def passwordPart : Option (List UInt8) → List UInt8
  | none => []
  | some p => 58 :: p

section UserInfo

variable {k : List UInt8 → Captures UInt8 → Option (Captures UInt8)}

lemma tryMatch_userInfo {user : List UInt8} {pass : Option (List UInt8)}
    (huser : ∀ c ∈ user, c ∉ [64, 58]) (hpass : ∀ c ∈ pass.getD [], c ∉ [64]) (t : List UInt8)
    (m : Captures UInt8) : userInfoRegex.tryMatch (user ++ (passwordPart pass ++ 64 :: t)) m k
      = k t (captureOpt (update m 1 user) 2 pass) := by
  have hend : ∀ c ∈ (passwordPart pass ++ 64 :: t).head?, c ∈ [64, 58] := by
    cases pass <;> simp [passwordPart]
  rw [userInfoRegex, tryMatch_seq, tryMatch_group_manyExcept _ huser hend, tryMatch_seq, tryMatch_opt,
    tryMatch_seq]
  · cases pass with
    | none =>
      rw [passwordPart, nil_append, tryMatch_char_of_ne _ _ _ (by decide), none_or,
        tryMatch_char_self, captureOpt]
    | some pass =>
      have hat : ∀ c ∈ (64 :: t).head?, c ∈ [64] := by simp
      have hrun : ∀ c ∈ pass, c ∉ [64] := hpass
      rw [passwordPart, cons_append, tryMatch_char_self,
        tryMatch_group_manyExcept _ hrun hat, tryMatch_char_self,
        tryMatch_char_of_ne _ _ _ (by decide), or_none, captureOpt]
      intro c s m hc
      rw [tryMatch_char_of_ne _ _ _ (by simpa using hc)]
  intro c s m hc
  obtain ⟨h64, h58⟩ : c ≠ 64 ∧ c ≠ 58 := by simpa using hc
  rw [tryMatch_seq, tryMatch_opt, tryMatch_seq, tryMatch_char_of_ne _ _ _ h58, none_or,
    tryMatch_char_of_ne _ _ _ h64]

lemma exists_userInfo (s : List UInt8) : 64 ∉ s ∨ ∃ user pass t,
    s = user ++ (passwordPart pass ++ 64 :: t) ∧ (∀ c ∈ user, c ∉ [64, 58]) ∧
    ∀ c ∈ pass.getD [], c ∉ [64] := by
  obtain ⟨user, b, rfl, huser, hb⟩ := exists_run_except [64, 58] s
  have hno : 64 ∉ user := fun h => huser 64 h (by simp)
  cases b with
  | nil => exact .inl (by simpa using hno)
  | cons c b =>
    obtain rfl | rfl : c = 64 ∨ c = 58 := by simpa using hb
    · exact .inr ⟨user, none, b, rfl, huser, nofun⟩
    obtain ⟨pass, b, rfl, hpass, hb⟩ := exists_run_except [64] b
    have hno' : 64 ∉ pass := fun h => hpass 64 h (by simp)
    cases b with
    | nil => exact .inl (by simp [hno, hno'])
    | cons c t =>
      obtain rfl : c = 64 := by simpa using hb
      exact .inr ⟨user, some pass, t, rfl, huser, hpass⟩

lemma tryMatch_userInfo_other {s : List UInt8} (hs : 64 ∉ s) (m : Captures UInt8) :
    userInfoRegex.tryMatch s m k = none := by
  have hat : ∀ {s : List UInt8}, 64 ∉ s → ∀ m, (char 64).tryMatch s m k = none := by
    intro s hs m
    cases s with
    | nil => rfl
    | cons c s => exact tryMatch_char_of_ne _ _ _ fun e => hs (by simp [e])
  obtain ⟨user, b, rfl, huser, hb⟩ := exists_run_except [64, 58] s
  have hno : 64 ∉ b := fun h => hs (mem_append_right _ h)
  rw [userInfoRegex, tryMatch_seq, tryMatch_group_manyExcept _ huser hb, tryMatch_seq, tryMatch_opt,
    hat hno, or_none, tryMatch_seq]
  · cases b with
    | nil => rfl
    | cons c b =>
      by_cases hc : c = 58
      · subst hc
        obtain ⟨pass, b, rfl, hpass, hb⟩ := exists_run_except [64] b
        rw [tryMatch_char_self, tryMatch_group_manyExcept _ hpass hb, hat]
        · simp_all
        · intro c s m hc
          rw [tryMatch_char_of_ne _ _ _ (by simpa using hc)]
      · rw [tryMatch_char_of_ne _ _ _ hc]
  intro c s m hc
  obtain ⟨h64, h58⟩ : c ≠ 64 ∧ c ≠ 58 := by simpa using hc
  rw [tryMatch_seq, tryMatch_opt, tryMatch_seq, tryMatch_char_of_ne _ _ _ h58, none_or,
    tryMatch_char_of_ne _ _ _ h64]

end UserInfo

lemma at_not_mem_userInfo
    (huser : ∀ c ∈ user, c ∉ [64, 58]) (hpass : ∀ c ∈ pass.getD [], c ∉ [64]) :
    64 ∉ user ++ passwordPart pass := by
  intro h
  obtain h | h := mem_append.mp h
  · exact huser 64 h (by simp)
  cases pass with
  | none => cases h
  | some pass =>
    obtain h | h := mem_cons.mp h
    · cases h
    · exact hpass 64 h (by simp)

lemma fullMatch_authority_of_none (h : userInfoRegex.tryMatch s (fun _ => [])
      (fun s m => hostAndPortRegex.tryMatch s m atEnd) = none) :
    fullMatch authorityRegex s = hostAndPortRegex.tryMatch s (fun _ => []) atEnd := by
  exact congrArg (Option.or · _) h

lemma fullMatch_authority_userInfo
    (huser : ∀ c ∈ user, c ∉ [64, 58]) (hpass : ∀ c ∈ pass.getD [], c ∉ [64]) :
    fullMatch authorityRegex (user ++ (passwordPart pass ++ 64 :: t)) =
      (hostAndPortRegex.tryMatch t (captureOpt (update (fun _ => []) 1 user) 2 pass) atEnd).or
        (hostAndPortRegex.tryMatch (user ++ (passwordPart pass ++ 64 :: t)) (fun _ => []) atEnd) := by
  rw [fullMatch, authorityRegex, tryMatch_seq, tryMatch_opt, tryMatch_userInfo huser hpass]
  rfl

structure Groups (s : List UInt8) (m : Captures UInt8) : Prop where
  username : ∀ c ∈ m 1, c ∈ s ∧ c ∉ [64, 58]
  password : ∀ c ∈ m 2, c ∈ s ∧ c ∉ [64]
  host : ∀ c ∈ m 3, c ∈ s
  hostText : HostText (m 3)

lemma groups_of_hostAndPort
    (h : hostAndPortRegex.tryMatch s (fun _ => []) atEnd = some m) : Groups s m := by
  obtain ⟨host, p, rfl, hhost, hp⟩ := exists_of_tryMatch_hostAndPort h
  rw [tryMatch_hostAndPort hhost hp] at h
  cases h
  constructor <;> simp +contextual [captureOpt_apply, hhost]

lemma groups_of_fullMatch_authority (h : fullMatch authorityRegex s = some m) : Groups s m := by
  obtain hno | ⟨user, pass, t, rfl, huser, hpass⟩ := exists_userInfo s
  · rw [fullMatch_authority_of_none (tryMatch_userInfo_other hno _)] at h
    exact groups_of_hostAndPort h
  rw [fullMatch_authority_userInfo huser hpass, or_eq_some_iff] at h
  obtain h | ⟨-, h⟩ := h
  · obtain ⟨host, p, rfl, hhost, hp⟩ := exists_of_tryMatch_hostAndPort h
    rw [tryMatch_hostAndPort hhost hp] at h
    cases h
    constructor
    · intro c hc
      have hc : c ∈ user := by simpa [captureOpt_apply] using hc
      exact ⟨mem_append_left _ hc, huser c hc⟩
    · intro c hc
      have hc : c ∈ pass.getD [] := by simpa [captureOpt_apply] using hc
      refine ⟨?_, hpass c hc⟩
      cases pass with
      | none => cases hc
      | some pass =>
        have hc : c ∈ pass := hc
        simp [passwordPart, hc]
    · intro c hc
      have hc : c ∈ host := by simpa [captureOpt_apply] using hc
      simp [hc]
    · simpa [captureOpt_apply] using hhost
  · exact groups_of_hostAndPort h

lemma ofString_plain (hscheme : IsScheme scheme)
    (hap : ∀ c ∈ ap, c ∉ [63, 35]) (hq : ∀ c ∈ q.getD [], c ∉ [35]) (f : Option (List UInt8))
    (hno : fullMatch authorityAndPathRegex ap = none) :
    ofString (scheme ++ 58 :: (ap ++ (queryPart q ++ fragmentPart f))) = .ok {
      scheme := toLower scheme, username := [], password := [], host := [], hasAuthority := false,
      port := 0, path := ap, query := q.getD [], fragment := f.getD [] } := by
  rw [ofString, fullMatch_uri hscheme hap hq]
  simp [captureOpt_apply, hno]

lemma ofString_authority (hscheme : IsScheme scheme) (hauth : ∀ c ∈ auth, c ∉ [47, 63, 35])
    (hpath : ∀ c ∈ path, c ∉ [63, 35]) (hhead : ∀ c ∈ path.head?, c ∈ [47])
    (hq : ∀ c ∈ q.getD [], c ∉ [35]) (f : Option (List UInt8)) :
    ofString (scheme ++ 58 :: (47 :: 47 :: (auth ++ path) ++ (queryPart q ++ fragmentPart f)))
      = ofAuthority (toLower scheme) auth path (q.getD []) (f.getD []) := by
  have hap : ∀ c ∈ 47 :: 47 :: (auth ++ path), c ∉ [63, 35] := by
    intro c hc
    obtain rfl | rfl | hc | hc : c = 47 ∨ c = 47 ∨ c ∈ auth ∨ c ∈ path := by simpa using hc
    · decide
    · decide
    · exact fun h => hauth c hc (mem_cons_of_mem _ h)
    · exact hpath c hc
  have hslash : ∀ c ∈ auth, c ∉ [47] := by
    intro c hc h
    rw [mem_singleton.mp h] at hc
    exact hauth 47 hc mem_cons_self
  obtain ⟨a, ha, h₁, h₂⟩ := fullMatch_authorityAndPath hslash hhead
  rw [ofString, fullMatch_uri hscheme hap hq]
  simp [captureOpt_apply, ha, h₁, h₂]

lemma ofAuthority_eq {port : BitVec 16}
    (h : fullMatch authorityRegex auth = some m) (hport : parsePort (m 4) = .ok port)
    (scheme path query fragment : List UInt8) : ofAuthority scheme auth path query fragment = .ok {
      scheme, username := m 1, password := m 2, host := m 3, hasAuthority := true, port, path, query,
      fragment } := by
  rw [ofAuthority, h]
  simp only [hport]

variable {u : Uri}

lemma exists_of_ofAuthority {query fragment : List UInt8}
    (h : ofAuthority scheme auth path query fragment = .ok u) : ∃ m port,
      fullMatch authorityRegex auth = some m ∧ u = {
        scheme, username := m 1, password := m 2, host := m 3, hasAuthority := true, port, path, query,
        fragment } := by
  rw [ofAuthority] at h
  cases hm : fullMatch authorityRegex auth with
  | none => rw [hm] at h; cases h
  | some m =>
    rw [hm] at h
    cases hport : parsePort (m 4) with
    | error e => simp only [hport] at h; cases h
    | ok port =>
      simp only [hport] at h
      cases h
      exact ⟨m, port, rfl, rfl⟩

structure WellFormed (u : Uri) : Prop where
  scheme : IsScheme u.scheme
  lower : toLower u.scheme = u.scheme
  path : ∀ c ∈ u.path, c ∉ [63, 35]
  query : ∀ c ∈ u.query, c ∉ [35]
  plain : u.hasAuthority = false → u.username = [] ∧ u.password = [] ∧ u.host = [] ∧ u.port = 0 ∧
    fullMatch authorityAndPathRegex u.path = none
  username : ∀ c ∈ u.username, c ∉ [64, 58, 47, 63, 35]
  password : ∀ c ∈ u.password, c ∉ [64, 47, 63, 35]
  host : ∀ c ∈ u.host, c ∉ [47, 63, 35]
  hostText : HostText u.host
  head : u.hasAuthority = true → ∀ c ∈ u.path.head?, c ∈ [47]

set_option maxRecDepth 4000 in
lemma lower_scheme : ∀ c, (isAlpha c = true → isAlpha (lower c) = true) ∧
    (isSchemeChar c = true → isSchemeChar (lower c) = true) ∧ lower (lower c) = lower c :=
  Text.forall_byte (by decide)

lemma isScheme_toLower (h : IsScheme scheme) : IsScheme (toLower scheme) := by
  obtain ⟨c, t, rfl, hc, ht⟩ := h
  refine ⟨lower c, toLower t, rfl, (lower_scheme c).1 hc, ?_⟩
  intro d hd
  obtain ⟨e, he, rfl⟩ := mem_map.mp hd
  exact (lower_scheme e).2.1 (ht e he)

lemma toLower_toLower (s : List UInt8) : toLower (toLower s) = toLower s := by
  rw [toLower, toLower, List.map_map]
  exact List.map_congr_left fun c _ => (lower_scheme c).2.2

lemma wellFormed_of_ofString (h : ofString s = .ok u) : u.WellFormed := by
  cases hm : fullMatch uriRegex s with
  | none => rw [ofString, hm] at h; cases h
  | some m =>
    obtain ⟨scheme, ap, q, f, rfl, hscheme, hap, hq⟩ := exists_of_fullMatch_uri hm
    obtain ⟨auth, path, rfl, hauth, hhead⟩ | hno := exists_authority ap
    · have hauth' : ∀ c ∈ auth, c ∉ [47, 63, 35] := by
        intro c hc h
        obtain h | h := mem_cons.mp h
        · exact hauth c hc (mem_singleton.mpr h)
        · exact hap c (by simp [hc]) h
      have hpath : ∀ c ∈ path, c ∉ [63, 35] := fun c hc => hap c (by simp [hc])
      rw [ofString_authority hscheme hauth' hpath hhead hq] at h
      obtain ⟨m, port, hm, rfl⟩ := exists_of_ofAuthority h
      have hgroups := groups_of_fullMatch_authority hm
      exact {
        scheme := isScheme_toLower hscheme
        lower := toLower_toLower scheme
        path := hpath
        query := hq
        plain := nofun
        username := fun c hc h => by
          obtain ⟨hs, hno⟩ := hgroups.username c hc
          simp_all
        password := fun c hc h => by
          obtain ⟨hs, hno⟩ := hgroups.password c hc
          simp_all
        host := fun c hc => hauth' c (hgroups.host c hc)
        hostText := hgroups.hostText
        head := fun _ => hhead }
    rw [ofString_plain hscheme hap hq f hno] at h
    cases h
    exact {
      scheme := isScheme_toLower hscheme
      lower := toLower_toLower scheme
      path := hap
      query := hq
      plain := fun _ => ⟨rfl, rfl, rfl, rfl, hno⟩
      username := nofun
      password := nofun
      host := nofun
      hostText := .inr nofun
      head := nofun }

def optional (s : List UInt8) : Option (List UInt8) := if s.isEmpty then none else some s

lemma getD_optional (s : List UInt8) : (optional s).getD [] = s := by
  cases s <;> rfl

def printedPort (u : Uri) (buffer : Vector UInt8 20) : Option (List UInt8) :=
  if u.port ≠ 0 then some (Conv.toAppend portType u.port buffer.toList) else none

lemma toAppend_port (u : Uri) (buffer : Vector UInt8 20) :
    Conv.toAppend portType u.port buffer.toList = text u.port.toNat :=
  Conv.toAppend_unsigned (w := .w16) u.port buffer.length_toList

lemma digits_printedPort (u : Uri) (buffer : Vector UInt8 20) :
    ∀ c ∈ (u.printedPort buffer).getD [], isDigit c = true := by
  intro c hc
  rw [printedPort] at hc
  split at hc
  · rw [getD_some, toAppend_port] at hc
    exact text_digits _ c hc
  · cases hc

lemma parsePort_printedPort (u : Uri) (buffer : Vector UInt8 20) :
    parsePort ((u.printedPort buffer).getD []) = .ok u.port := by
  rw [printedPort]
  by_cases h : u.port = 0
  · rw [if_neg (not_not.mpr h), h]
    rfl
  have hne : (Conv.toAppend portType u.port buffer.toList).isEmpty = false := by
    rw [toAppend_port, isEmpty_eq_false_iff]
    exact text_ne_nil _
  rw [if_pos h, getD_some, parsePort, hne]
  exact Conv.toIntegral_toAppend portType u.port buffer

lemma portPart_printedPort (u : Uri) (buffer : Vector UInt8 20) :
    portPart (u.printedPort buffer) = u.portText buffer := by
  rw [printedPort, portText]
  split <;> rfl

lemma toString_plain (h : u.hasAuthority = false) (buffer : Vector UInt8 20) :
    u.toString buffer = u.scheme ++ 58 :: (u.path ++
      (queryPart (optional u.query) ++ fragmentPart (optional u.fragment))) := by
  rw [toString, h, optional, optional]
  cases u.query <;> cases u.fragment <;> simp [queryPart, fragmentPart]

lemma toString_authority (h : u.hasAuthority = true) (buffer : Vector UInt8 20) :
    u.toString buffer = u.scheme ++ 58 :: (47 :: 47 ::
      (u.userInfo ++ u.host ++ u.portText buffer ++ u.path) ++
      (queryPart (optional u.query) ++ fragmentPart (optional u.fragment))) := by
  rw [toString, h, optional, optional]
  cases u.query <;> cases u.fragment <;> simp [queryPart, fragmentPart]

lemma userInfo_eq (h : ¬ (u.username = [] ∧ u.password = [])) (t : List UInt8) :
    u.userInfo ++ t = u.username ++ (passwordPart (optional u.password) ++ 64 :: t) := by
  rw [userInfo, optional]
  cases hpassword : u.password with
  | nil =>
    have husername : u.username ≠ [] := fun e => h ⟨e, hpassword⟩
    simp [passwordPart, husername]
  | cons c p => simp [passwordPart]

def Clear (u : Uri) : Prop :=
  u.username = [] → u.password = [] → ∀ a b, u.host = a ++ 64 :: b → 64 ∉ a → ¬ HostText b

lemma not_mem_portPart (hp : ∀ c ∈ p.getD [], isDigit c = true)
    (hc : isDigit c = false) (hcolon : c ≠ 58) : c ∉ portPart p := by
  cases p with
  | none => exact not_mem_nil
  | some p =>
    intro h
    obtain h | h := mem_cons.mp h
    · exact hcolon h
    · exact absurd (hp c h) (by simp [hc])

lemma exists_host_split {host p : List UInt8} (hp : 64 ∉ p) (h : a ++ 64 :: t = host ++ p) :
    ∃ b, host = a ++ 64 :: b ∧ t = b ++ p := by
  obtain ⟨c, rfl, hc⟩ | ⟨c, -, rfl⟩ := append_eq_append_iff.mp h
  · cases c with
    | nil =>
      rw [nil_append] at hc
      exact absurd (by rw [← hc]; exact mem_cons_self) hp
    | cons d c =>
      obtain ⟨rfl, rfl⟩ := List.cons.inj hc
      exact ⟨c, rfl, rfl⟩
  · exact absurd (by simp) hp

lemma append_cons_inj {a' b' : List UInt8} (ha : c ∉ a) (ha' : c ∉ a')
    (h : a ++ c :: b = a' ++ c :: b') : a = a' ∧ b = b' := by
  obtain ⟨d, rfl, hd⟩ | ⟨d, rfl, hd⟩ := append_eq_append_iff.mp h
  all_goals
    cases d with
    | nil | cons e d => simp_all

lemma hostText_of_split {p' : Option (List UInt8)}
    (hhost : HostText (a ++ 64 :: b)) (hh : HostText h) (hp : ∀ c ∈ p.getD [], isDigit c = true)
    (heq : b ++ portPart p' = h ++ portPart p) : HostText b := by
  obtain ⟨w, hw, hno⟩ | hplain := hhost
  · -- the host is a literal, so its last character is the bracket
    obtain ⟨v, rfl, hv⟩ : ∃ v, b = v ++ [93] ∧ 93 ∉ v := by
      obtain rfl | ⟨v, x, rfl⟩ := eq_nil_or_concat' b
      · have hlast := congrArg getLast? hw
        rw [← cons_append, getLast?_concat, getLast?_concat] at hlast
        cases hlast
      have hw' : a ++ 64 :: v ++ [x] = 91 :: w ++ [93] := by simpa using hw
      obtain ⟨hinit, hx⟩ := append_inj' hw' rfl
      obtain rfl : x = 93 := by simpa using hx
      refine ⟨v, rfl, fun hv => ?_⟩
      have hmem : 93 ∈ 91 :: w := by
        rw [← hinit]
        simp [hv]
      obtain h | h := mem_cons.mp hmem
      · cases h
      · exact hno 93 h (by simp)
    obtain ⟨w', rfl, hno'⟩ | hplain := hh
    · have hw' : 93 ∉ 91 :: w' := by
        intro h
        obtain h | h := mem_cons.mp h
        · cases h
        · exact hno' 93 h (by simp)
      have heq' : v ++ 93 :: portPart p' = (91 :: w') ++ 93 :: portPart p := by simpa using heq
      obtain ⟨rfl, -⟩ := append_cons_inj hv hw' heq'
      exact .inl ⟨w', rfl, hno'⟩
    obtain ⟨c, rfl, -⟩ | ⟨c, hc, hpp⟩ := append_eq_append_iff.mp heq
    · exact .inr fun d hd => hplain d (mem_append_left _ hd)
    obtain rfl | ⟨c, x, rfl⟩ := eq_nil_or_concat' c
    · rw [hc, append_nil]
      exact .inr hplain
    rw [← append_assoc] at hc
    obtain ⟨-, hx⟩ := append_inj' hc rfl
    have hmem : 93 ∈ portPart p := by
      rw [hpp]
      simp [List.cons.inj hx]
    exact absurd hmem (not_mem_portPart hp (by decide) (by decide))
  · exact .inr fun c hc => hplain c (by simp [hc])

section RoundTrip

variable {u : Uri} (hu : u.WellFormed) (buffer : Vector UInt8 20)
include hu

lemma WellFormed.userInfo : ∀ c ∈ u.userInfo, c ∉ [47, 63, 35] := by
  intro c hc
  by_cases hempty : u.username = [] ∧ u.password = []
  · simp [Uri.userInfo, hempty] at hc
  have hsplit := userInfo_eq hempty []
  rw [append_nil] at hsplit
  rw [hsplit, mem_append, mem_append] at hc
  obtain hc | hc | hc := hc
  · exact fun h => hu.username c hc (mem_cons_of_mem _ (mem_cons_of_mem _ h))
  · rw [optional] at hc
    split at hc
    · cases hc
    · obtain rfl | hc := mem_cons.mp hc
      · decide
      · exact fun h => hu.password c hc (mem_cons_of_mem _ h)
  · obtain rfl : c = 64 := mem_singleton.mp hc
    decide

lemma WellFormed.authority :
    ∀ c ∈ u.userInfo ++ u.host ++ u.portText buffer, c ∉ [47, 63, 35] := by
  intro c hc
  rw [mem_append, mem_append, ← portPart_printedPort] at hc
  obtain (hc | hc) | hc := hc
  · exact hu.userInfo c hc
  · exact hu.host c hc
  · intro h
    obtain rfl | rfl | rfl : c = 47 ∨ c = 63 ∨ c = 35 := by simpa using h
    all_goals exact not_mem_portPart (u.digits_printedPort buffer) (by decide) (by decide) hc

lemma ofString_toString_plain (h : u.hasAuthority = false) : ofString (u.toString buffer) = .ok u := by
  obtain ⟨husername, hpassword, hhost, hport, hno⟩ := hu.plain h
  have hq : ∀ c ∈ (optional u.query).getD [], c ∉ [35] := by
    rw [getD_optional]
    exact hu.query
  rw [toString_plain h, ofString_plain hu.scheme hu.path hq _ hno, hu.lower, getD_optional, getD_optional]
  obtain ⟨scheme, username, password, host, hasAuthority, port, path, query, fragment⟩ := u
  cases husername
  cases hpassword
  cases hhost
  cases hport
  cases h
  rfl

lemma ofString_toString_authority (h : u.hasAuthority = true) : ofString (u.toString buffer)
    = ofAuthority u.scheme (u.userInfo ++ u.host ++ u.portText buffer) u.path u.query u.fragment := by
  have hq : ∀ c ∈ (optional u.query).getD [], c ∉ [35] := by
    rw [getD_optional]
    exact hu.query
  rw [toString_authority h, ofString_authority hu.scheme (hu.authority buffer) hu.path (hu.head h) hq,
    hu.lower, getD_optional, getD_optional]

lemma ofAuthority_userInfo (h : ¬ (u.username = [] ∧ u.password = [])) :
    ofAuthority u.scheme (u.userInfo ++ u.host ++ u.portText buffer) u.path u.query u.fragment
      = .ok { u with hasAuthority := true } := by
  have husername : ∀ c ∈ u.username, c ∉ [64, 58] := by
    intro c hc h
    obtain rfl | rfl : c = 64 ∨ c = 58 := by simpa using h
    all_goals exact hu.username _ hc (by simp)
  have hpassword : ∀ c ∈ (optional u.password).getD [], c ∉ [64] := by
    rw [getD_optional]
    intro c hc h
    obtain rfl : c = 64 := by simpa using h
    exact hu.password _ hc (by simp)
  have hmatch := fullMatch_authority_userInfo (t := u.host ++ u.portText buffer) husername hpassword
  rw [← portPart_printedPort, tryMatch_hostAndPort hu.hostText (u.digits_printedPort buffer),
    some_or, ← userInfo_eq h, ← append_assoc] at hmatch
  rw [← portPart_printedPort,
    ofAuthority_eq hmatch (by simpa [captureOpt_apply] using u.parsePort_printedPort buffer)]
  simp [captureOpt_apply, getD_optional]

section NoUserInfo

variable (husername : u.username = []) (hpassword : u.password = [])
include husername hpassword

lemma ofAuthority_clear (hclear : u.Clear) :
    ofAuthority u.scheme (u.host ++ u.portText buffer) u.path u.query u.fragment
      = .ok { u with hasAuthority := true } := by
  have hdigits := u.digits_printedPort buffer
  have hno : userInfoRegex.tryMatch (u.host ++ portPart (u.printedPort buffer)) (fun _ => [])
      (fun s m => hostAndPortRegex.tryMatch s m atEnd) = none := by
    obtain hno | ⟨user, pass, t, hs, huser, hpass⟩ :=
      exists_userInfo (u.host ++ portPart (u.printedPort buffer))
    · exact tryMatch_userInfo_other hno _
    rw [hs, tryMatch_userInfo huser hpass, eq_none_iff_forall_ne_some]
    intro m hm
    obtain ⟨h, p, rfl, hh, hp⟩ := exists_of_tryMatch_hostAndPort hm
    rw [← append_assoc] at hs
    obtain ⟨b, hhost, ht⟩ :=
      exists_host_split (not_mem_portPart hdigits (by decide) (by decide)) hs.symm
    exact hclear husername hpassword _ b hhost (at_not_mem_userInfo huser hpass)
      (hostText_of_split (hhost ▸ hu.hostText) hh hp ht.symm)
  have hmatch := fullMatch_authority_of_none hno
  rw [tryMatch_hostAndPort hu.hostText hdigits] at hmatch
  rw [← portPart_printedPort,
    ofAuthority_eq hmatch (by simpa [captureOpt_apply] using u.parsePort_printedPort buffer)]
  simp [captureOpt_apply, husername, hpassword]

omit hu in
lemma host_of_not_clear (hclear : ¬ u.Clear) {v : Uri}
    (h : ofAuthority u.scheme (u.host ++ u.portText buffer) u.path u.query u.fragment = .ok v) :
    v.host ≠ u.host := by
  obtain ⟨a, b, hhost, ha, hb⟩ : ∃ a b, u.host = a ++ 64 :: b ∧ 64 ∉ a ∧ HostText b := by
    simpa [Clear, husername, hpassword] using hclear
  have hdigits := u.digits_printedPort buffer
  rw [← portPart_printedPort] at h
  obtain hno | ⟨user, pass, t, hs, huser, hpass⟩ :=
      exists_userInfo (u.host ++ portPart (u.printedPort buffer))
  · exact absurd (by simp [hhost]) hno
  have hs' := hs
  rw [← append_assoc] at hs'
  obtain ⟨b', hhost', rfl⟩ :=
    exists_host_split (not_mem_portPart hdigits (by decide) (by decide)) hs'.symm
  obtain ⟨rfl, rfl⟩ := append_cons_inj ha (at_not_mem_userInfo huser hpass) (hhost.symm.trans hhost')
  have hmatch := fullMatch_authority_userInfo (t := b ++ portPart (u.printedPort buffer)) huser hpass
  rw [tryMatch_hostAndPort hb hdigits, some_or] at hmatch
  rw [hs] at h
  obtain ⟨m, port, hm, rfl⟩ := exists_of_ofAuthority h
  obtain rfl := Option.some.inj (hmatch.symm.trans hm)
  intro heq
  have hlength := congrArg List.length (heq.trans hhost)
  simp [captureOpt_apply] at hlength
  omega

end NoUserInfo

end RoundTrip

theorem ofString_toString_iff (s : List UInt8) (u : Uri) (h : ofString s = .ok u)
    (buffer : Vector UInt8 20) :
    (∃ v, ofString (u.toString buffer) = .ok v ∧ v.asTuple = u.asTuple) ↔ u.Clear := by
  have hu := wellFormed_of_ofString h
  cases hauth : u.hasAuthority with
  | false =>
    refine iff_of_true ⟨u, ofString_toString_plain hu buffer hauth, rfl⟩ ?_
    rintro - - a b hhost
    rw [(hu.plain hauth).2.2.1] at hhost
    simp at hhost
  | true =>
    rw [ofString_toString_authority hu buffer hauth]
    by_cases hempty : u.username = [] ∧ u.password = []
    · obtain ⟨husername, hpassword⟩ := hempty
      have huserInfo : u.userInfo = [] := by simp [userInfo, husername, hpassword]
      rw [huserInfo, nil_append]
      constructor
      · rintro ⟨v, hv, htuple⟩
        by_contra hclear
        exact host_of_not_clear buffer husername hpassword hclear hv
          (congrArg (fun t => t.2.2.2.1) htuple)
      · intro hclear
        exact ⟨_, ofAuthority_clear hu buffer husername hpassword hclear, rfl⟩
    · refine iff_of_true ⟨_, ofAuthority_userInfo hu buffer hempty, rfl⟩ ?_
      exact fun husername hpassword => absurd ⟨husername, hpassword⟩ hempty

theorem ofString_toString_iff_user :
    let u : Uri := ⟨[97], [98], [], [99], true, 0, [], [], []⟩
    ofString [97, 58, 47, 47, 98, 64, 99] = .ok u ∧
    ((∃ v, ofString (u.toString (Vector.replicate 20 0)) = .ok v ∧ v.asTuple = u.asTuple) ↔ u.Clear) :=
  ⟨rfl, ofString_toString_iff [97, 58, 47, 47, 98, 64, 99] _ rfl _⟩

theorem toString_drops_user :
    let u : Uri := ⟨[97], [], [], [98, 64, 99], true, 0, [], [], []⟩
    let v : Uri := ⟨[97], [98], [], [99], true, 0, [], [], []⟩
    ofString [97, 58, 47, 47, 64, 98, 64, 99] = .ok u ∧
    u.toString (Vector.replicate 20 0) = [97, 58, 47, 47, 98, 64, 99] ∧
    ofString (u.toString (Vector.replicate 20 0)) = .ok v ∧ v.asTuple ≠ u.asTuple :=
  ⟨rfl, rfl, rfl, by simp [asTuple]⟩

end Uri

end Acc
