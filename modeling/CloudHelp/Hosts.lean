import CloudHelp.JsonEncoding

/-!
# Host names, addresses and ports

The functions of `net`, `net/url`, `strconv` and `regexp` that the validators of this repository
call. An expression of `regexp` that is anchored at both ends is a predicate on the whole string.
`(?i:[a-z])` folds case as Unicode does, so it also takes the long s (U+017F) and the Kelvin sign
(U+212A); host names are therefore matched rune by rune.
-/

namespace CloudHelp

def isLower (c : UInt8) : Bool := 97 ≤ c.toNat && c.toNat ≤ 122

def isUpper (c : UInt8) : Bool := 65 ≤ c.toNat && c.toNat ≤ 90

/-- `^[first][rest]{0,most}$` -/
def matchesHeadTail (first rest : UInt8 → Bool) (most : ℕ) : Bytes → Bool
  | [] => false
  | c :: cs => first c && cs.all rest && cs.length ≤ most

/-- `^[A-Z]{2}$` -/
def matchesTwoUpper : Bytes → Bool
  | [a, b] => isUpper a && isUpper b
  | _ => false

namespace Host

open Utf8

/-- `(?i:[a-z0-9])` on one rune. -/
def isAlnum : Piece → Bool
  | .rune [c] => isLower c || isUpper c || isDigit c
  | .rune code => code == [0xC5, 0xBF] || code == [0xE2, 0x84, 0xAA]
  | .bad _ => false

def isAlnumOrDash (p : Piece) : Bool := isAlnum p || p == .rune [45]

/-- `(?i:[a-z0-9](?:[a-z0-9-]{0,61}[a-z0-9])?)` -/
def isLabel (label : List Piece) : Bool :=
  label.length ≤ 63 && label.all isAlnumOrDash && label.head?.any isAlnum &&
    label.getLast?.any isAlnum

def dropFinalDot (l : List Piece) : List Piece :=
  if l.getLast? = some (.rune [46]) then l.dropLast else l

/-- `hostnamePattern`: labels between dots, and perhaps a dot at the end. -/
def matchesHostname (host : Bytes) : Bool :=
  ((dropFinalDot (pieces host)).splitOn (.rune [46])).all isLabel

end Host

/-! ## Addresses -/

namespace IP

/-- `parseIPv4Fields`; `val`, `digits` and `pos` are the loop's variables, `dot` says that the
byte before was a dot. -/
def parseFields : ℕ → ℕ → ℕ → Bool → Bytes → Bool
  | _, _, pos, dot, [] => pos == 3 && !dot
  | val, digits, pos, dot, c :: rest =>
      if isDigit c then
        if digits = 1 ∧ val = 0 then false
        else if val * 10 + (c.toNat - 48) > 255 then false
        else parseFields (val * 10 + (c.toNat - 48)) (digits + 1) pos false rest
      else if c = 46 then
        if dot ∨ pos = 3 then false else parseFields 0 0 (pos + 1) true rest
      else false

def parseIPv4 (s : Bytes) : Bool := parseFields 0 0 0 true s

def isHex (c : UInt8) : Bool :=
  isDigit c || (97 ≤ c.toNat && c.toNat ≤ 102) || (65 ≤ c.toNat && c.toNat ≤ 70)

/-- The loop of `parseIPv6` over the groups of hexadecimal digits. `room` is the number of groups
that still fit, `ellipsis` says that `::` was seen. -/
def parseGroups : ℕ → Bool → Bytes → Bool
  | 0, _, _ => false
  | room + 1, ellipsis, s =>
      let group := s.takeWhile isHex
      let rest := s.dropWhile isHex
      if group = [] ∨ 4 < group.length then false
      else match rest with
        | [] => ellipsis != (room == 0)
        | 46 :: _ =>
            -- an IPv4 address fills the last two groups
            if (!ellipsis && room != 1) || room == 0 then false
            else parseIPv4 s && (ellipsis != (room == 1))
        | [58] => false
        | 58 :: 58 :: rest =>
            if ellipsis then false
            else if rest = [] then room != 0 else parseGroups room true rest
        | 58 :: rest => parseGroups room ellipsis rest
        | _ => false

/-- An address with a zone is none for `net.ParseIP`. -/
def parseIPv6 (s : Bytes) : Bool :=
  if s.contains 37 then false
  else match s with
    | [58, 58] => true
    | 58 :: 58 :: rest => parseGroups 8 true rest
    | _ => parseGroups 8 false s

/-- `net.ParseIP(s) != nil` -/
def parseIP (s : Bytes) : Bool :=
  match s.find? fun c => c = 46 ∨ c = 58 ∨ c = 37 with
  | some 46 => parseIPv4 s
  | some 58 => parseIPv6 s
  | _ => false

theorem not_space_of_isDigit {c : UInt8} (h : isDigit c = true) : c ≠ 32 := by
  rintro rfl
  cases h

/-- The points are counted, and nothing but digits and points is passed over. -/
theorem of_parseFields {val digits pos : ℕ} {dot : Bool} {s : Bytes}
    (h : parseFields val digits pos dot s = true) : pos + s.count 46 = 3 ∧ 32 ∉ s := by
  induction s generalizing val digits pos dot with
  | nil =>
      simp only [parseFields, Bool.and_eq_true, beq_iff_eq] at h
      simp [h.1]
  | cons c rest ih =>
      unfold parseFields at h
      split_ifs at h with hdigit _ _ hpoint _
      · obtain ⟨hcount, hspace⟩ := ih h
        have hc : c ≠ 46 := by
          rintro rfl
          cases hdigit
        rw [List.count_cons_of_ne hc]
        exact ⟨hcount, List.not_mem_cons_of_ne_of_not_mem (not_space_of_isDigit hdigit).symm hspace⟩
      · subst hpoint
        obtain ⟨hcount, hspace⟩ := ih h
        rw [List.count_cons_self]
        exact ⟨by omega, List.not_mem_cons_of_ne_of_not_mem (by decide) hspace⟩

theorem not_space_of_isHex {c : UInt8} (h : isHex c = true) : c ≠ 32 := by
  rintro rfl
  cases h

/-- Of eight groups at most six are without a colon behind them: two follow `::`, or an address of
version 4. -/
theorem of_parseGroups {n : ℕ} {ellipsis : Bool} {s : Bytes} (h : parseGroups n ellipsis s = true) :
    32 ∉ s ∧ (ellipsis = false → n ≤ 8 → n ≤ s.count 58 + 6) := by
  induction n generalizing ellipsis s with
  | zero => cases h
  | succ room ih =>
      have hsplit := List.takeWhile_append_dropWhile (p := isHex) (l := s)
      have hgroup : 32 ∉ s.takeWhile isHex := fun hc =>
        not_space_of_isHex (List.mem_takeWhile_imp hc) rfl
      have hcount : s.count 58 = (s.takeWhile isHex).count 58 + (s.dropWhile isHex).count 58 := by
        rw [← List.count_append, hsplit]
      have hspace : 32 ∉ s.dropWhile isHex → 32 ∉ s := by
        intro hrest hc
        rw [← hsplit, List.mem_append] at hc
        exact hc.elim hgroup hrest
      unfold parseGroups at h
      dsimp only at h
      split at h
      · cases h
      split at h
      · rename_i hrest
        rw [hrest] at hspace
        refine ⟨hspace (by simp), fun hellipsis _ => ?_⟩
        subst hellipsis
        simp at h
        omega
      · split_ifs at h with hroom
        rw [Bool.and_eq_true] at h
        refine ⟨(of_parseFields h.1).2, fun hellipsis _ => ?_⟩
        subst hellipsis
        simp at hroom
        omega
      · cases h
      · rename_i rest _ hrest
        rw [hrest] at hspace hcount
        split_ifs at h with hellipsis hnil
        · subst hnil
          exact ⟨hspace (by decide), fun _ _ => by simp at hcount; omega⟩
        · have hspace' := (ih h).1
          exact ⟨hspace (by simpa using hspace'), fun _ _ => by simp at hcount; omega⟩
      · rename_i rest _ _ hrest
        rw [hrest] at hspace hcount
        obtain ⟨hspace', hcount'⟩ := ih h
        refine ⟨hspace (by simpa using hspace'), fun hellipsis hn => ?_⟩
        have := hcount' hellipsis (by omega)
        simp at hcount
        omega
      · cases h

theorem of_parseIPv6 {s : Bytes} (h : parseIPv6 s = true) : 2 ≤ s.count 58 ∧ 32 ∉ s := by
  unfold parseIPv6 at h
  split_ifs at h
  split at h
  · decide
  · rename_i rest _
    have hspace := (of_parseGroups h).1
    exact ⟨by simp, by simpa using hspace⟩
  · obtain ⟨hspace, hcount⟩ := of_parseGroups h
    exact ⟨by have := hcount rfl le_rfl; omega, hspace⟩

/-- An address has three points or two colons, and no space. -/
theorem of_parseIP {s : Bytes} (h : parseIP s = true) :
    (3 ≤ s.count 46 ∨ 2 ≤ s.count 58) ∧ 32 ∉ s := by
  unfold parseIP at h
  split at h
  · obtain ⟨hpoints, hspace⟩ := of_parseFields h
    exact ⟨.inl (by omega), hspace⟩
  · obtain ⟨hcolons, hspace⟩ := of_parseIPv6 h
    exact ⟨.inr hcolons, hspace⟩
  · cases h

end IP

/-! ## Ports -/

/-- `strconv.Atoi`; `none` for bad syntax and for a value outside `int64`. -/
def atoi (s : Bytes) : Option ℤ :=
  let negative := s.head? = some 45
  let digits := if negative ∨ s.head? = some 43 then s.tail else s
  let value : ℤ := digits.foldl (fun v c => v * 10 + (c.toNat - 48)) 0
  if digits = [] ∨ ¬ digits.all isDigit then none
  else if negative then if value ≤ 2 ^ 63 then some (-value) else none
  else if value < 2 ^ 63 then some value else none

def cutLast (c : UInt8) (s : Bytes) : Option (Bytes × Bytes) :=
  if s.contains c then
    some ((s.reverse.dropWhile (· != c)).tail.reverse, (s.reverse.takeWhile (· != c)).reverse)
  else none

def splitHostPort (hostport : Bytes) : Option (Bytes × Bytes) :=
  match cutLast 58 hostport with
  | none => none
  | some (before, port) =>
      if hostport.head? = some 91 then
        -- the first closing bracket stands just before the last colon
        let host := hostport.tail.takeWhile (· != 93)
        if before = 91 :: host ++ [93] ∧ ¬ host.contains 91 ∧ ¬ port.contains 91 ∧
            ¬ port.contains 93 then some (host, port)
        else none
      else if before.contains 58 ∨ hostport.contains 91 ∨ hostport.contains 93 then none
      else some (before, port)

/-- `url.URL` as far as the validators read it; `user` says that `User` is not nil. -/
structure URL where
  scheme : Bytes
  user : Bool
  host : Bytes
  rawQuery : Bytes
  fragment : Bytes

namespace URL

/-- `validOptionalPort` of the text from the last colon on. -/
def splitHost (host : Bytes) : Bytes × Bytes :=
  match cutLast 58 host with
  | some (before, port) => if port.all isDigit then (before, port) else (host, [])
  | none => (host, [])

def hostname (u : URL) : Bytes :=
  let host := (splitHost u.host).1
  if host.head? = some 91 ∧ host.getLast? = some 93 then host.tail.dropLast else host

def port (u : URL) : Bytes := (splitHost u.host).2

end URL

end CloudHelp
