import CloudHelp.Lists
import CloudHelp.ManifestTypes

/-!
# Request URIs

`url.ParseRequestURI`. Everything is computed except what becomes of a host, which differs between
releases: `parseHost` returns it decoded, or nothing where it is malformed. In this mode of the
parser a `#` is an ordinary character of the path, and a lone `?` at the end is dropped. So a URL
that shows no query may still end in a question mark (`getLast_of_question`), but it has no user
information (`no_userinfo`).
-/

namespace CloudHelp

namespace URL

def isSchemeStart (c : UInt8) : Bool := isLower c || isUpper c

def isSchemeChar (c : UInt8) : Bool :=
  isSchemeStart c || isDigit c || c == 43 || c == 45 || c == 46

/-- `getScheme`: what stands before and after the first colon. There is no scheme where something
else comes first, and a colon at the start is an error. -/
def getScheme (rawURL : Bytes) : Option (Bytes × Bytes) :=
  match rawURL.takeWhile isSchemeChar, rawURL.dropWhile isSchemeChar with
  | [], 58 :: _ => none
  | c :: scheme, 58 :: rest =>
      if isSchemeStart c = true then some (c :: scheme, rest) else some ([], rawURL)
  | _, _ => some ([], rawURL)

def toLower (s : Bytes) : Bytes := s.map fun c => if isUpper c then c + 32 else c

/-- The part before the query, and the query. A lone question mark at the end sets `ForceQuery`. -/
def cutQuery (rest : Bytes) : Bytes × Bytes :=
  if rest.getLast? = some 63 ∧ rest.count 63 = 1 then (rest.dropLast, [])
  else (rest.takeWhile (· != 63), (rest.dropWhile (· != 63)).tail)

def validEscapes : Bytes → Bool
  | [] => true
  | [c] => c != 37
  | [c, d] => c != 37 && d != 37
  | c :: a :: b :: rest =>
      if c = 37 then IP.isHex a && IP.isHex b && validEscapes rest
      else validEscapes (a :: b :: rest)

def validUserinfo (s : Bytes) : Bool :=
  s.all fun c => isLower c || isUpper c || isDigit c || c ∈ str "-._:~!$&'()*+,;=%@"

section Parse

variable (parseHost : Bytes → Option Bytes)

def parseAuthority (authority : Bytes) : Option (Bool × Bytes) :=
  match cutLast 64 authority with
  | none => (parseHost authority).map fun host => (false, host)
  | some (userinfo, hostport) =>
      match parseHost hostport with
      | none => none
      | some host =>
          if validUserinfo userinfo = true ∧ validEscapes userinfo = true then some (true, host)
          else none

def locate (scheme rest : Bytes) : Option ((Bool × Bytes) × Bytes) :=
  if scheme ≠ [] ∧ rest.take 2 = [47, 47] then
    (parseAuthority parseHost ((rest.drop 2).takeWhile (· != 47))).map fun located =>
      (located, (rest.drop 2).dropWhile (· != 47))
  else some ((false, []), rest)

def parseRequestURI (rawURL : Bytes) : Option URL :=
  if rawURL.any (fun c => c < 32 || c == 127) = true then none
  else if rawURL = [] then none
  else if rawURL = [42] then some ⟨[], false, [], [], []⟩
  else match getScheme rawURL with
    | none => none
    | some (scheme, rest) =>
        let rawQuery := (cutQuery rest).2
        let rest := (cutQuery rest).1
        if rest.head? ≠ some 47 then
          -- the rest of a URL without a slash is opaque
          if scheme ≠ [] then some ⟨toLower scheme, false, [], rawQuery, []⟩ else none
        else match locate parseHost scheme rest with
          | none => none
          | some ((user, host), path) =>
              if validEscapes path = true then some ⟨toLower scheme, user, host, rawQuery, []⟩
              else none

end Parse

/-! ## The text of a URL -/

/-- The authority of a URL as its text shows it. -/
def authority (u : Bytes) : Bytes :=
  match u.dropWhile (· != 58) with
  | 58 :: 47 :: 47 :: rest => rest.takeWhile fun c => c != 47 && c != 63 && c != 35
  | _ => []

theorem getScheme_eq_some {u scheme rest : Bytes} (h : getScheme u = some (scheme, rest))
    (hne : scheme ≠ []) : u = scheme ++ 58 :: rest ∧ ∀ c ∈ scheme, isSchemeChar c = true := by
  have hsplit := List.takeWhile_append_dropWhile (p := isSchemeChar) (l := u)
  have hall := fun c (hc : c ∈ u.takeWhile isSchemeChar) => List.mem_takeWhile_imp hc
  unfold getScheme at h
  split at h
  · cases h
  · rename_i c front back hfront hback
    split_ifs at h with hstart
    · obtain ⟨rfl, rfl⟩ := Prod.mk.inj (Option.some.inj h)
      rw [hfront, hback] at hsplit
      rw [hfront] at hall
      exact ⟨hsplit.symm, hall⟩
    · exact absurd (Prod.mk.inj (Option.some.inj h)).1.symm hne
  · exact absurd (Prod.mk.inj (Option.some.inj h)).1.symm hne

theorem isSchemeChar_ne {c : UInt8} (h : isSchemeChar c = true) : c ≠ 58 ∧ c ≠ 63 := by
  constructor
  · rintro rfl
    revert h
    decide
  · rintro rfl
    revert h
    decide

theorem cutQuery_fst (rest : Bytes) : (cutQuery rest).1 = rest.takeWhile (· != 63) := by
  unfold cutQuery
  split_ifs with h
  · obtain ⟨hlast, hcount⟩ := h
    obtain ⟨init, rfl⟩ := List.getLast?_eq_some_iff.mp hlast
    have hinit : 63 ∉ init := by
      rw [← List.count_eq_zero]
      rw [List.count_append, List.count_singleton_self] at hcount
      omega
    rw [List.dropLast_concat, takeWhile_ne_append hinit]
  · rfl

theorem getLast_of_cutQuery {rest : Bytes} (h : (cutQuery rest).2 = []) (hmem : 63 ∈ rest) :
    rest.getLast? = some 63 := by
  obtain ⟨front, back, rfl, hfront⟩ := List.eq_append_cons_of_mem hmem
  unfold cutQuery at h
  split_ifs at h with hlone
  · exact hlone.1
  · -- nothing follows the first question mark
    rw [dropWhile_ne_append hfront] at h
    change back = [] at h
    rw [h, List.getLast?_concat]

section Parsed

variable {parseHost : Bytes → Option Bytes}

theorem locate_eq_some {scheme rest host path : Bytes} {user : Bool}
    (h : locate parseHost scheme rest = some ((user, host), path)) (hhost : host ≠ []) :
    scheme ≠ [] ∧ ∃ tail, rest = 47 :: 47 :: tail ∧
      parseAuthority parseHost (tail.takeWhile (· != 47)) = some (user, host) := by
  unfold locate at h
  split_ifs at h with hauthority
  · obtain ⟨hscheme, hslashes⟩ := hauthority
    obtain ⟨located, hlocated, he⟩ := Option.map_eq_some_iff.mp h
    obtain ⟨rfl, _⟩ := Prod.mk.inj he
    have hrest := List.take_append_drop 2 rest
    rw [hslashes] at hrest
    exact ⟨hscheme, rest.drop 2, hrest.symm, hlocated⟩
  · exact absurd (Prod.mk.inj (Prod.mk.inj (Option.some.inj h)).1).2.symm hhost

/-- A URL with a host has the form `scheme://authority…`. -/
theorem parseRequestURI_eq_some {u : Bytes} {parsed : URL}
    (h : parseRequestURI parseHost u = some parsed) (hhost : parsed.host ≠ []) :
    ∃ scheme rest tail, u = scheme ++ 58 :: rest ∧ (∀ c ∈ scheme, isSchemeChar c = true) ∧
      rest.takeWhile (· != 63) = 47 :: 47 :: tail ∧ parsed.rawQuery = (cutQuery rest).2 ∧
      parseAuthority parseHost (tail.takeWhile (· != 47)) = some (parsed.user, parsed.host) := by
  unfold parseRequestURI at h
  split_ifs at h with hcontrol hempty hstar
  · rw [← Option.some.inj h] at hhost
    exact absurd rfl hhost
  · cases hscheme : getScheme u with
    | none =>
        rw [hscheme] at h
        cases h
    | some found =>
        obtain ⟨scheme, rest⟩ := found
        simp only [hscheme, cutQuery_fst] at h
        split_ifs at h with hslash hopaque
        · rw [← Option.some.inj h] at hhost
          exact absurd rfl hhost
        · cases hlocate : locate parseHost scheme (rest.takeWhile (· != 63)) with
          | none =>
              rw [hlocate] at h
              cases h
          | some located =>
              obtain ⟨⟨user, host⟩, path⟩ := located
              simp only [hlocate] at h
              split_ifs at h with hescapes
              obtain rfl := Option.some.inj h
              obtain ⟨hne, tail, htail, hauthority⟩ := locate_eq_some hlocate hhost
              obtain ⟨hu, hchars⟩ := getScheme_eq_some hscheme hne
              exact ⟨scheme, rest, tail, hu, hchars, htail, rfl, hauthority⟩

/-- A URL without a query has no question mark, or it ends in one. -/
theorem getLast_of_question {u : Bytes} {parsed : URL}
    (h : parseRequestURI parseHost u = some parsed) (hhost : parsed.host ≠ [])
    (hquery : parsed.rawQuery = []) (hmem : 63 ∈ u) : u.getLast? = some 63 := by
  obtain ⟨scheme, rest, _, rfl, hchars, _, hraw, _⟩ := parseRequestURI_eq_some h hhost
  rw [hraw] at hquery
  have hrest : 63 ∈ rest := by
    rcases List.mem_append.mp hmem with hscheme | hrest
    · exact absurd rfl (isSchemeChar_ne (hchars 63 hscheme)).2
    · exact (List.mem_cons.mp hrest).resolve_left (by decide)
  have hlast := getLast_of_cutQuery hquery hrest
  rw [List.getLast?_append, List.getLast?_cons, hlast]
  rfl

theorem not_mem_of_parseAuthority {text host : Bytes}
    (h : parseAuthority parseHost text = some (false, host)) : 64 ∉ text := by
  intro hmem
  unfold parseAuthority cutLast at h
  rw [if_pos (List.contains_iff_mem.mpr hmem)] at h
  dsimp only at h
  split at h
  · cases h
  · split_ifs at h
    cases h

/-- Where the parser finds no user information, the text shows none. -/
theorem no_userinfo {u : Bytes} {parsed : URL} (h : parseRequestURI parseHost u = some parsed)
    (hhost : parsed.host ≠ []) (huser : parsed.user = false) : 64 ∉ authority u := by
  obtain ⟨scheme, rest, tail, rfl, hchars, htail, _, hauthority⟩ := parseRequestURI_eq_some h hhost
  rw [huser] at hauthority
  have hcolon : 58 ∉ scheme := fun hc => (isSchemeChar_ne (hchars 58 hc)).1 rfl
  cases rest with
  | nil => cases htail
  | cons a rest =>
      cases rest with
      | nil =>
          rw [List.takeWhile_cons] at htail
          split at htail <;> cases htail
      | cons b rest =>
          rw [List.takeWhile_cons] at htail
          split at htail
          · rw [List.takeWhile_cons] at htail
            split at htail
            · cases htail
              intro hmem
              rw [authority, dropWhile_ne_append hcolon] at hmem
              apply not_mem_of_parseAuthority hauthority
              apply mem_takeWhile_takeWhile _ hmem
              intro c hc
              rw [Bool.and_eq_true, Bool.and_eq_true] at hc
              exact ⟨hc.1.2, hc.1.1⟩
            · cases htail
          · cases htail

end Parsed

end URL

def Runtime.withURLs (rt : Runtime) (parseHost : Bytes → Option Bytes) : Runtime :=
  { rt with parseRequestURI := URL.parseRequestURI parseHost }

end CloudHelp
