import CloudHelp.JsonUnquote

/-!
# Reading JSON

`readValue` reads the value at the head of an input as the scanner of `encoding/json` does and
returns what comes after it. `Reads` is the grammar in the words of a specification, with white
space wherever it may stand; the two agree (`read_eq_some`). The limit of 10000 nested values is
left out: nothing that the program reads is nested so deep.
-/

namespace CloudHelp

/-! ## Numbers -/

def readDigits (s : Bytes) : Option (Bytes × Bytes) :=
  if s.takeWhile isDigit = [] then none else some (s.takeWhile isDigit, s.dropWhile isDigit)

/-- The whole part; nothing follows a leading zero. -/
def readWhole : Bytes → Option (Bytes × Bytes)
  | [] => none
  | c :: r => if c = 48 then some ([48], r) else readDigits (c :: r)

def readFraction : Bytes → Option (Bytes × Bytes)
  | [] => some ([], [])
  | c :: r =>
      if c = 46 then (readDigits r).map fun found => (46 :: found.1, found.2)
      else some ([], c :: r)

def readExponent : Bytes → Option (Bytes × Bytes)
  | [] => some ([], [])
  | c :: r =>
      if c = 101 ∨ c = 69 then
        match r with
        | [] => none
        | d :: r' =>
            if d = 43 ∨ d = 45 then (readDigits r').map fun found => (c :: d :: found.1, found.2)
            else (readDigits r).map fun found => (c :: found.1, found.2)
      else some ([], c :: r)

def readUnsigned (s : Bytes) : Option (Bytes × Bytes) :=
  match readWhole s with
  | none => none
  | some (whole, s) =>
      match readFraction s with
      | none => none
      | some (fraction, s) =>
          match readExponent s with
          | none => none
          | some (exponent, s) => some (whole ++ fraction ++ exponent, s)

def readNumber : Bytes → Option (Bytes × Bytes)
  | [] => none
  | c :: r =>
      if c = 45 then (readUnsigned r).map fun found => (45 :: found.1, found.2)
      else readUnsigned (c :: r)

def NumberEnds (r : Bytes) : Prop :=
  ∀ c ∈ r.head?, isDigit c = false ∧ c ≠ 46 ∧ c ≠ 101 ∧ c ≠ 69

theorem formatUint_eq (n : ℕ) :
    formatUint n = if n < 10 then [UInt8.ofNat (48 + n)]
      else formatUint (n / 10) ++ [UInt8.ofNat (48 + n % 10)] := by
  unfold formatUint
  rw [Nat.toDigits_eq_if (by decide)]
  split_ifs with h
  · rw [List.map_singleton, Nat.toNat_digitChar_of_lt_ten h]
  · rw [List.map_append, List.map_singleton,
      Nat.toNat_digitChar_of_lt_ten (Nat.mod_lt n (by decide))]

/-- The first digit of a number is zero only if the number is. -/
theorem head_formatUint {n : ℕ} (hn : n ≠ 0) : (formatUint n).head? ≠ some 48 := by
  induction n using Nat.strong_induction_on with
  | h n ih =>
      rw [formatUint_eq]
      split_ifs with h
      · simp only [List.head?_cons, ne_eq, Option.some.injEq]
        interval_cases n <;> simp_all
      · obtain ⟨c, t, ht, -⟩ := formatUint_eq_cons (n / 10)
        have hprev := ih (n / 10) (by omega) (by omega)
        rw [ht] at hprev ⊢
        exact hprev

theorem readDigits_append {l r : Bytes} (hl : ∀ c ∈ l, isDigit c = true) (hne : l ≠ [])
    (hr : Stops r) : readDigits (l ++ r) = some (l, r) := by
  have htake := takeWhile_digits hl hr
  have hdrop : (l ++ r).dropWhile isDigit = r := by
    have happend := List.takeWhile_append_dropWhile (p := isDigit) (l := l ++ r)
    rw [htake] at happend
    exact List.append_cancel_left happend
  rw [readDigits, htake, hdrop, if_neg hne]

theorem stops_of_numberEnds {r : Bytes} (h : NumberEnds r) : Stops r := fun c hc => (h c hc).1

theorem readWhole_formatUint (n : ℕ) {r : Bytes} (hr : Stops r) :
    readWhole (formatUint n ++ r) = some (formatUint n, r) := by
  obtain ⟨c, t, ht, hc⟩ := formatUint_eq_cons n
  by_cases hn : n = 0
  · subst hn
    rfl
  · have hhead := head_formatUint hn
    rw [ht, List.head?_cons, ne_eq, Option.some.injEq] at hhead
    have hdigits := readDigits_append (fun c hc => isDigit_of_mem_formatUint (n := n) hc)
      (by rw [ht]; exact List.cons_ne_nil _ _) hr
    rw [ht] at hdigits ⊢
    rw [List.cons_append] at hdigits ⊢
    rw [readWhole, if_neg hhead, hdigits]

theorem readFraction_of_numberEnds {r : Bytes} (hr : NumberEnds r) :
    readFraction r = some ([], r) := by
  cases r with
  | nil => rfl
  | cons c r => rw [readFraction, if_neg (hr c rfl).2.1]

theorem readExponent_of_numberEnds {r : Bytes} (hr : NumberEnds r) :
    readExponent r = some ([], r) := by
  cases r with
  | nil => rfl
  | cons c r =>
      obtain ⟨-, -, h101, h69⟩ := hr c rfl
      simp only [readExponent, h101, h69, or_self, if_false]

theorem readUnsigned_formatUint (n : ℕ) {r : Bytes} (hr : NumberEnds r) :
    readUnsigned (formatUint n ++ r) = some (formatUint n, r) := by
  rw [readUnsigned, readWhole_formatUint n (stops_of_numberEnds hr)]
  simp only [readFraction_of_numberEnds hr, readExponent_of_numberEnds hr, List.append_nil]

theorem readNumber_formatInt (n : ℤ) {r : Bytes} (hr : NumberEnds r) :
    readNumber (formatInt n ++ r) = some (formatInt n, r) := by
  unfold formatInt
  split_ifs with hn
  · rw [List.cons_append, readNumber, if_pos rfl, readUnsigned_formatUint _ hr]
    rfl
  · obtain ⟨c, t, ht, hc⟩ := formatUint_eq_cons n.natAbs
    have hread := readUnsigned_formatUint n.natAbs hr
    rw [ht, List.cons_append] at hread ⊢
    rw [readNumber, if_neg _, hread]
    rintro rfl
    exact absurd hc (by decide)

theorem readDigits_eq_some {s l r : Bytes} (h : readDigits s = some (l, r)) :
    s = l ++ r ∧ l ≠ [] := by
  unfold readDigits at h
  split_ifs at h with hne
  obtain ⟨rfl, rfl⟩ := Prod.mk.inj (Option.some.inj h)
  exact ⟨List.takeWhile_append_dropWhile.symm, hne⟩

theorem readWhole_eq_some {s l r : Bytes} (h : readWhole s = some (l, r)) :
    s = l ++ r ∧ l ≠ [] := by
  cases s with
  | nil => cases h
  | cons c s =>
      simp only [readWhole] at h
      split_ifs at h with hzero
      · obtain ⟨rfl, rfl⟩ := Prod.mk.inj (Option.some.inj h)
        exact ⟨by rw [hzero]; rfl, List.cons_ne_nil _ _⟩
      · exact readDigits_eq_some h

theorem readFraction_eq_some {s l r : Bytes} (h : readFraction s = some (l, r)) : s = l ++ r := by
  cases s with
  | nil =>
      obtain ⟨rfl, rfl⟩ := Prod.mk.inj (Option.some.inj h)
      rfl
  | cons c s =>
      simp only [readFraction] at h
      split_ifs at h with hdot
      · obtain ⟨⟨digits, rest⟩, hdigits, hfound⟩ := Option.map_eq_some_iff.mp h
        obtain ⟨rfl, rfl⟩ := Prod.mk.inj hfound
        rw [(readDigits_eq_some hdigits).1, hdot]
        rfl
      · obtain ⟨rfl, rfl⟩ := Prod.mk.inj (Option.some.inj h)
        rfl

theorem readExponent_eq_some {s l r : Bytes} (h : readExponent s = some (l, r)) : s = l ++ r := by
  cases s with
  | nil =>
      obtain ⟨rfl, rfl⟩ := Prod.mk.inj (Option.some.inj h)
      rfl
  | cons c s =>
      by_cases hletter : c = 101 ∨ c = 69
      · cases s with
        | nil => simp [readExponent, hletter] at h
        | cons d s =>
            simp only [readExponent, hletter, if_true] at h
            split_ifs at h with hsign
            · obtain ⟨⟨digits, rest⟩, hdigits, hfound⟩ := Option.map_eq_some_iff.mp h
              obtain ⟨rfl, rfl⟩ := Prod.mk.inj hfound
              rw [(readDigits_eq_some hdigits).1]
              rfl
            · obtain ⟨⟨digits, rest⟩, hdigits, hfound⟩ := Option.map_eq_some_iff.mp h
              obtain ⟨rfl, rfl⟩ := Prod.mk.inj hfound
              rw [(readDigits_eq_some hdigits).1]
              rfl
      · simp only [readExponent, hletter, if_false, Option.some.injEq, Prod.mk.injEq] at h
        obtain ⟨rfl, rfl⟩ := h
        rfl

/-- A number is what was taken off the head of the input. -/
theorem readNumber_eq_some {s l r : Bytes} (h : readNumber s = some (l, r)) :
    s = l ++ r ∧ l ≠ [] := by
  have hunsigned : ∀ {s l r : Bytes}, readUnsigned s = some (l, r) → s = l ++ r ∧ l ≠ [] := by
    intro s l r h
    unfold readUnsigned at h
    cases hwhole : readWhole s with
    | none => simp [hwhole] at h
    | some found =>
        obtain ⟨whole, s₁⟩ := found
        cases hfraction : readFraction s₁ with
        | none => simp [hwhole, hfraction] at h
        | some found =>
            obtain ⟨fraction, s₂⟩ := found
            cases hexponent : readExponent s₂ with
            | none => simp [hwhole, hfraction, hexponent] at h
            | some found =>
                obtain ⟨exponent, s₃⟩ := found
                simp only [hwhole, hfraction, hexponent, Option.some.injEq, Prod.mk.injEq] at h
                obtain ⟨rfl, rfl⟩ := h
                obtain ⟨rfl, hne⟩ := readWhole_eq_some hwhole
                rw [readFraction_eq_some hfraction, readExponent_eq_some hexponent]
                simp [hne]
  cases s with
  | nil => cases h
  | cons c s =>
      simp only [readNumber] at h
      split_ifs at h with hminus
      · obtain ⟨⟨rest, r'⟩, hrest, hfound⟩ := Option.map_eq_some_iff.mp h
        obtain ⟨rfl, rfl⟩ := Prod.mk.inj hfound
        rw [(hunsigned hrest).1, hminus]
        exact ⟨rfl, List.cons_ne_nil _ _⟩
      · exact hunsigned h

/-! ## Values -/

/-- A value as the decoder sees it: a number is its literal, a string the text between its quotes.
-/
inductive JsonValue where
  | null
  | bool (b : Bool)
  | num (literal : Bytes)
  | str (text : Bytes)
  | arr (items : List JsonValue)
  | obj (members : List (Bytes × JsonValue))

namespace JsonValue

open Json (isSpace)

def skipSpace (s : Bytes) : Bytes := s.dropWhile isSpace

def expect (c : UInt8) (s : Bytes) : Option Bytes :=
  if (skipSpace s).head? = some c then some (skipSpace s).tail else none

def readWord (word : Bytes) (value : JsonValue) (s : Bytes) : Option (JsonValue × Bytes) :=
  if (skipSpace s).take word.length = word then some (value, (skipSpace s).drop word.length)
  else none

def readScalar (s : Bytes) : Option (JsonValue × Bytes) :=
  (((((expect 34 s).bind (JsonText.scanText .plain)).map fun found =>
      (JsonValue.str found.1, found.2)).or
    (readWord (CloudHelp.str "null") .null s)).or
    (readWord (CloudHelp.str "true") (.bool true) s)).or
    (readWord (CloudHelp.str "false") (.bool false) s) |>.or
    ((readNumber (skipSpace s)).map fun found => (JsonValue.num found.1, found.2))

def readName (s : Bytes) : Option (Bytes × Bytes) :=
  ((expect 34 s).bind (JsonText.scanText .plain)).bind fun found =>
    (expect 58 found.2).map fun r => (found.1, r)

mutual

def readValue : ℕ → Bytes → Option (JsonValue × Bytes)
  | 0, _ => none
  | fuel + 1, s =>
      ((expect 91 s).bind fun r =>
        ((expect 93 r).map fun r => (JsonValue.arr [], r)).or
          ((readItems fuel r).map fun found => (JsonValue.arr found.1, found.2))).or
      (((expect 123 s).bind fun r =>
        ((expect 125 r).map fun r => (JsonValue.obj [], r)).or
          ((readMembers fuel r).map fun found => (JsonValue.obj found.1, found.2))).or
      (readScalar s))

def readItems : ℕ → Bytes → Option (List JsonValue × Bytes)
  | 0, _ => none
  | fuel + 1, s =>
      (readValue fuel s).bind fun found =>
        ((expect 93 found.2).map fun r => ([found.1], r)).or
          ((expect 44 found.2).bind fun r =>
            (readItems fuel r).map fun rest => (found.1 :: rest.1, rest.2))

def readMembers : ℕ → Bytes → Option (List (Bytes × JsonValue) × Bytes)
  | 0, _ => none
  | fuel + 1, s =>
      (readName s).bind fun name =>
        (readValue fuel name.2).bind fun found =>
          ((expect 125 found.2).map fun r => ([(name.1, found.1)], r)).or
            ((expect 44 found.2).bind fun r =>
              (readMembers fuel r).map fun rest => ((name.1, found.1) :: rest.1, rest.2))

end

def read (s : Bytes) : Option (JsonValue × Bytes) := readValue (2 * s.length) s

/-! ## The grammar -/

def Begins (c : UInt8) (s r : Bytes) : Prop := skipSpace s = c :: r

def ReadsName (s name r : Bytes) : Prop :=
  ∃ s', Begins 34 s (name ++ 34 :: s') ∧ JsonText.IsText name ∧ Begins 58 s' r

inductive ReadsScalar (s : Bytes) : JsonValue → Bytes → Prop where
  | str {t r : Bytes} (h : Begins 34 s (t ++ 34 :: r)) (htext : JsonText.IsText t) :
      ReadsScalar s (.str t) r
  | null {r : Bytes} (h : skipSpace s = CloudHelp.str "null" ++ r) : ReadsScalar s .null r
  | true {r : Bytes} (h : skipSpace s = CloudHelp.str "true" ++ r) : ReadsScalar s (.bool true) r
  | false {r : Bytes} (h : skipSpace s = CloudHelp.str "false" ++ r) :
      ReadsScalar s (.bool false) r
  | num {r literal : Bytes} (h : readNumber (skipSpace s) = some (literal, r)) :
      ReadsScalar s (.num literal) r

mutual

inductive Reads : Bytes → JsonValue → Bytes → Prop where
  | scalar {s r : Bytes} {v : JsonValue} (h : ReadsScalar s v r) : Reads s v r
  | emptyArr {s s' r : Bytes} (h : Begins 91 s s') (hend : Begins 93 s' r) : Reads s (.arr []) r
  | arr {s s' r : Bytes} {vs : List JsonValue} (h : Begins 91 s s') (hitems : ReadsItems s' vs r) :
      Reads s (.arr vs) r
  | emptyObj {s s' r : Bytes} (h : Begins 123 s s') (hend : Begins 125 s' r) :
      Reads s (.obj []) r
  | obj {s s' r : Bytes} {ms : List (Bytes × JsonValue)} (h : Begins 123 s s')
      (hmembers : ReadsMembers s' ms r) : Reads s (.obj ms) r

inductive ReadsItems : Bytes → List JsonValue → Bytes → Prop where
  | last {s s' r : Bytes} {v : JsonValue} (hvalue : Reads s v s') (hend : Begins 93 s' r) :
      ReadsItems s [v] r
  | next {s s₁ s₂ r : Bytes} {v : JsonValue} {vs : List JsonValue} (hvalue : Reads s v s₁)
      (hcomma : Begins 44 s₁ s₂) (hrest : ReadsItems s₂ vs r) : ReadsItems s (v :: vs) r

inductive ReadsMembers : Bytes → List (Bytes × JsonValue) → Bytes → Prop where
  | last {s s₁ s₂ r name : Bytes} {v : JsonValue} (hname : ReadsName s name s₁)
      (hvalue : Reads s₁ v s₂) (hend : Begins 125 s₂ r) : ReadsMembers s [(name, v)] r
  | next {s s₁ s₂ s₃ r name : Bytes} {v : JsonValue} {ms : List (Bytes × JsonValue)}
      (hname : ReadsName s name s₁) (hvalue : Reads s₁ v s₂) (hcomma : Begins 44 s₂ s₃)
      (hrest : ReadsMembers s₃ ms r) : ReadsMembers s ((name, v) :: ms) r

end

/-! ## The reader keeps to the grammar -/

theorem expect_eq_some {c : UInt8} {s r : Bytes} : expect c s = some r ↔ Begins c s r := by
  unfold expect Begins
  cases skipSpace s with
  | nil => simp
  | cons d t =>
      by_cases hc : d = c <;> simp [hc]

theorem Begins.length_lt {c : UInt8} {s r : Bytes} (h : Begins c s r) : r.length < s.length := by
  have hle := (List.dropWhile_sublist isSpace (l := s)).length_le
  rw [← skipSpace, h, List.length_cons] at hle
  omega

theorem Begins.unique {c d : UInt8} {s r r' : Bytes} (h : Begins c s r) (h' : Begins d s r') :
    c = d ∧ r = r' := by
  unfold Begins at h h'
  rw [h, List.cons.injEq] at h'
  exact h'

theorem readName_eq_some {s name r : Bytes} :
    readName s = some (name, r) ↔ ReadsName s name r := by
  simp only [readName, ReadsName, Option.bind_eq_some_iff, Option.map_eq_some_iff, expect_eq_some,
    Prod.exists, Prod.mk.injEq]
  constructor
  · rintro ⟨t, s', ⟨q, hquote, hscan⟩, r, hcolon, rfl, rfl⟩
    obtain ⟨rfl, htext⟩ := JsonText.scanText_eq_some.mp hscan
    exact ⟨s', hquote, htext, hcolon⟩
  · rintro ⟨s', hquote, htext, hcolon⟩
    exact ⟨name, s', ⟨_, hquote, JsonText.scanText_eq_some.mpr ⟨rfl, htext⟩⟩, r, hcolon, rfl, rfl⟩

theorem readWord_eq_some {word : Bytes} {value v : JsonValue} {s r : Bytes} :
    readWord word value s = some (v, r) ↔ v = value ∧ skipSpace s = word ++ r := by
  unfold readWord
  split_ifs with h
  · simp only [Option.some.injEq, Prod.mk.injEq]
    constructor
    · rintro ⟨rfl, rfl⟩
      refine ⟨rfl, ?_⟩
      conv_lhs => rw [← List.take_append_drop word.length (skipSpace s), h]
    · rintro ⟨rfl, hs⟩
      rw [hs]
      simp
  · simp only [false_iff, not_and]
    rintro rfl hs
    apply h
    rw [hs]
    simp

theorem expect_eq_none {c d : UInt8} {s t : Bytes} (hs : skipSpace s = c :: t) (hne : c ≠ d) :
    expect d s = none := by
  rw [expect, hs, List.head?_cons, if_neg (fun h => hne (Option.some.inj h))]

theorem readWord_eq_none {c d : UInt8} {s t word : Bytes} {value : JsonValue}
    (hs : skipSpace s = c :: t) (hword : word.head? = some d) (hne : c ≠ d) :
    readWord word value s = none := by
  cases word with
  | nil => cases hword
  | cons e rest =>
      obtain rfl : e = d := Option.some.inj hword
      rw [readWord, hs, List.length_cons, List.take_succ_cons,
        if_neg (fun h => hne (List.cons.inj h).1)]

theorem head_of_readNumber {s literal r : Bytes} (h : readNumber s = some (literal, r)) :
    ∃ c t, s = c :: t ∧ (c = 45 ∨ isDigit c = true) := by
  cases s with
  | nil => cases h
  | cons c t =>
      refine ⟨c, t, rfl, ?_⟩
      by_contra hnot
      rw [not_or, Bool.not_eq_true] at hnot
      have hzero : c ≠ 48 := by
        rintro rfl
        exact absurd hnot.2 (by decide)
      have hwhole : readWhole (c :: t) = none := by
        simp only [readWhole, if_neg hzero, readDigits, List.takeWhile_cons, hnot.2,
          Bool.false_eq_true, if_false, if_true]
      rw [readNumber, if_neg hnot.1, readUnsigned, hwhole] at h
      cases h

theorem readScalar_eq_some {s r : Bytes} {v : JsonValue} :
    readScalar s = some (v, r) ↔ ReadsScalar s v r := by
  constructor
  · intro h
    simp only [readScalar, Option.or_eq_some_iff, Option.map_eq_some_iff, Option.bind_eq_some_iff,
      expect_eq_some, readWord_eq_some, Prod.exists, Prod.mk.injEq] at h
    rcases h with (((⟨t, r, ⟨q, hquote, hscan⟩, rfl, rfl⟩ | ⟨-, rfl, hs⟩) | ⟨-, rfl, hs⟩) |
      ⟨-, rfl, hs⟩) | ⟨-, literal, r, hnumber, rfl, rfl⟩
    · obtain ⟨rfl, htext⟩ := JsonText.scanText_eq_some.mp hscan
      exact .str hquote htext
    · exact .null hs
    · exact .true hs
    · exact .false hs
    · exact .num hnumber
  · intro h
    have hnull : (CloudHelp.str "null").head? = some 110 := rfl
    have htrue : (CloudHelp.str "true").head? = some 116 := rfl
    have hfalse : (CloudHelp.str "false").head? = some 102 := rfl
    unfold readScalar
    cases h with
    | str hquote htext =>
        rw [expect_eq_some.mpr hquote, Option.bind_some,
          JsonText.scanText_eq_some.mpr ⟨rfl, htext⟩]
        rfl
    | null hs =>
        rw [expect_eq_none hs (by decide), readWord_eq_some.mpr ⟨rfl, hs⟩]
        rfl
    | true hs =>
        rw [expect_eq_none hs (by decide), readWord_eq_none hs hnull (by decide),
          readWord_eq_some.mpr ⟨rfl, hs⟩]
        rfl
    | false hs =>
        rw [expect_eq_none hs (by decide), readWord_eq_none hs hnull (by decide),
          readWord_eq_none hs htrue (by decide), readWord_eq_some.mpr ⟨rfl, hs⟩]
        rfl
    | num hnumber =>
        obtain ⟨c, t, hs, hc⟩ := head_of_readNumber hnumber
        have hne : ∀ d : UInt8, d ≠ 45 → isDigit d = false → c ≠ d := by
          rintro d h45 hdigit rfl
          rcases hc with hc | hc
          · exact h45 hc
          · rw [hdigit] at hc
            cases hc
        rw [expect_eq_none hs (hne 34 (by decide) (by decide)),
          readWord_eq_none hs hnull (hne 110 (by decide) (by decide)),
          readWord_eq_none hs htrue (hne 116 (by decide) (by decide)),
          readWord_eq_none hs hfalse (hne 102 (by decide) (by decide)), hnumber]
        rfl

/-- A value that is no array and no object begins with neither bracket. -/
theorem ReadsScalar.head_ne {s r : Bytes} {v : JsonValue} (h : ReadsScalar s v r) :
    ∃ c t, skipSpace s = c :: t ∧ c ≠ 91 ∧ c ≠ 123 := by
  cases h with
  | str hquote htext => exact ⟨34, _, hquote, by decide, by decide⟩
  | null hs => exact ⟨110, _, hs, by decide, by decide⟩
  | true hs => exact ⟨116, _, hs, by decide, by decide⟩
  | false hs => exact ⟨102, _, hs, by decide, by decide⟩
  | num hnumber =>
      obtain ⟨c, t, hs, hc⟩ := head_of_readNumber hnumber
      refine ⟨c, t, hs, ?_, ?_⟩ <;> rintro rfl <;> revert hc <;> decide

theorem readValue_sound (fuel : ℕ) :
    (∀ {s v r}, readValue fuel s = some (v, r) → Reads s v r) ∧
    (∀ {s vs r}, readItems fuel s = some (vs, r) → ReadsItems s vs r) ∧
    (∀ {s ms r}, readMembers fuel s = some (ms, r) → ReadsMembers s ms r) := by
  induction fuel with
  | zero => exact ⟨nofun, nofun, nofun⟩
  | succ fuel ih =>
      obtain ⟨ihvalue, ihitems, ihmembers⟩ := ih
      refine ⟨?_, ?_, ?_⟩
      · intro s v r h
        simp only [readValue, Option.or_eq_some_iff, Option.map_eq_some_iff,
          Option.bind_eq_some_iff, expect_eq_some, readScalar_eq_some, Prod.exists,
          Prod.mk.injEq] at h
        rcases h with ⟨s', hopen, ⟨r, hend, rfl, rfl⟩ | ⟨-, vs, r, hitems, rfl, rfl⟩⟩ |
          ⟨-, ⟨s', hopen, ⟨r, hend, rfl, rfl⟩ | ⟨-, ms, r, hmembers, rfl, rfl⟩⟩ | ⟨-, hscalar⟩⟩
        · exact .emptyArr hopen hend
        · exact .arr hopen (ihitems hitems)
        · exact .emptyObj hopen hend
        · exact .obj hopen (ihmembers hmembers)
        · exact .scalar hscalar
      · intro s vs r h
        simp only [readItems, Option.or_eq_some_iff, Option.map_eq_some_iff,
          Option.bind_eq_some_iff, expect_eq_some, Prod.exists, Prod.mk.injEq] at h
        obtain ⟨v, s', hvalue, ⟨r, hend, rfl, rfl⟩ | ⟨-, s₂, hcomma, vs, r, hrest, rfl, rfl⟩⟩ := h
        · exact .last (ihvalue hvalue) hend
        · exact .next (ihvalue hvalue) hcomma (ihitems hrest)
      · intro s ms r h
        simp only [readMembers, Option.or_eq_some_iff, Option.map_eq_some_iff,
          Option.bind_eq_some_iff, expect_eq_some, readName_eq_some, Prod.exists,
          Prod.mk.injEq] at h
        obtain ⟨name, s₁, hname, v, s₂, hvalue,
          ⟨r, hend, rfl, rfl⟩ | ⟨-, s₃, hcomma, ms, r, hrest, rfl, rfl⟩⟩ := h
        · exact .last hname (ihvalue hvalue) hend
        · exact .next hname (ihvalue hvalue) hcomma (ihmembers hrest)

theorem length_skipSpace_le (s : Bytes) : (skipSpace s).length ≤ s.length :=
  (List.dropWhile_sublist isSpace).length_le

theorem ReadsScalar.length_lt {s r : Bytes} {v : JsonValue} (h : ReadsScalar s v r) :
    r.length < s.length := by
  have hle := length_skipSpace_le s
  cases h with
  | str hquote htext =>
      have hlt := hquote.length_lt
      rw [List.length_append, List.length_cons] at hlt
      omega
  | null hs | true hs | false hs =>
      rw [hs, List.length_append] at hle
      refine lt_of_lt_of_le (Nat.lt_add_of_pos_left ?_) hle
      decide
  | num hnumber =>
      obtain ⟨hs, hne⟩ := readNumber_eq_some hnumber
      rw [hs, List.length_append] at hle
      have hpos := List.length_pos_of_ne_nil hne
      omega

/-- No value begins with a closing bracket. -/
theorem Reads.not_bracket {s t r : Bytes} {v : JsonValue} (h : Reads s v r) :
    ¬Begins 93 s t := by
  intro hend
  cases h with
  | scalar h =>
      cases h with
      | str hquote htext => exact absurd (hend.unique hquote).1 (by decide)
      | null hs => exact absurd (hend.unique (c := 93) (d := 110) hs).1 (by decide)
      | true hs => exact absurd (hend.unique (c := 93) (d := 116) hs).1 (by decide)
      | false hs => exact absurd (hend.unique (c := 93) (d := 102) hs).1 (by decide)
      | num hnumber =>
          obtain ⟨c, t, hs, hc⟩ := head_of_readNumber hnumber
          obtain ⟨rfl, -⟩ := hend.unique hs
          revert hc
          decide
  | emptyArr hopen _ | arr hopen _ | emptyObj hopen _ | obj hopen _ =>
      exact absurd (hend.unique hopen).1 (by decide)

theorem ReadsName.length_lt {s name r : Bytes} (h : ReadsName s name r) :
    r.length < s.length := by
  obtain ⟨s', hquote, -, hcolon⟩ := h
  have hlt := hquote.length_lt
  have hlt' := hcolon.length_lt
  rw [List.length_append, List.length_cons] at hlt
  omega

theorem expect_eq_none_iff {c : UInt8} {s : Bytes} : expect c s = none ↔ ∀ r, ¬Begins c s r := by
  rw [Option.eq_none_iff_forall_ne_some]
  exact forall_congr' fun r => not_congr expect_eq_some

mutual

/-- What the grammar allows is read, and two units of fuel for each byte are enough. -/
theorem Reads.complete : ∀ {s : Bytes} {v : JsonValue} {r : Bytes}, Reads s v r →
    r.length < s.length ∧
      ∀ fuel, 2 * s.length ≤ fuel + 2 * r.length → readValue fuel s = some (v, r)
  | s, v, r, .scalar h => by
      obtain ⟨c, t, hs, harr, hobj⟩ := h.head_ne
      refine ⟨h.length_lt, fun fuel hfuel => ?_⟩
      have hlt := h.length_lt
      obtain ⟨fuel, rfl⟩ : ∃ k, fuel = k + 1 := ⟨fuel - 1, by omega⟩
      rw [readValue, expect_eq_none hs harr, expect_eq_none hs hobj, readScalar_eq_some.mpr h]
      rfl
  | s, _, r, .emptyArr hopen hend => by
      have hlt := hopen.length_lt
      have hlt' := hend.length_lt
      refine ⟨by omega, fun fuel hfuel => ?_⟩
      obtain ⟨fuel, rfl⟩ : ∃ k, fuel = k + 1 := ⟨fuel - 1, by omega⟩
      rw [readValue, expect_eq_some.mpr hopen, Option.bind_some, expect_eq_some.mpr hend]
      rfl
  | s, _, r, .arr hopen hitems => by
      obtain ⟨hlt', hnone, hread⟩ := hitems.complete
      have hlt := hopen.length_lt
      refine ⟨by omega, fun fuel hfuel => ?_⟩
      obtain ⟨fuel, rfl⟩ : ∃ k, fuel = k + 1 := ⟨fuel - 1, by omega⟩
      rw [readValue, expect_eq_some.mpr hopen, Option.bind_some, hnone,
        hread fuel (by omega)]
      rfl
  | s, _, r, .emptyObj hopen hend => by
      have hlt := hopen.length_lt
      have hlt' := hend.length_lt
      refine ⟨by omega, fun fuel hfuel => ?_⟩
      obtain ⟨fuel, rfl⟩ : ∃ k, fuel = k + 1 := ⟨fuel - 1, by omega⟩
      rw [readValue, expect_eq_none hopen (by decide), expect_eq_some.mpr hopen, Option.bind_some,
        expect_eq_some.mpr hend]
      rfl
  | s, _, r, .obj hopen hmembers => by
      obtain ⟨hlt', hnone, hread⟩ := hmembers.complete
      have hlt := hopen.length_lt
      refine ⟨by omega, fun fuel hfuel => ?_⟩
      obtain ⟨fuel, rfl⟩ : ∃ k, fuel = k + 1 := ⟨fuel - 1, by omega⟩
      rw [readValue, expect_eq_none hopen (by decide), expect_eq_some.mpr hopen, Option.bind_some,
        hnone, hread fuel (by omega)]
      rfl

theorem ReadsItems.complete : ∀ {s : Bytes} {vs : List JsonValue} {r : Bytes}, ReadsItems s vs r →
    r.length < s.length ∧ expect 93 s = none ∧
      ∀ fuel, 2 * s.length ≤ fuel + 2 * r.length → readItems fuel s = some (vs, r)
  | s, _, r, .last hvalue hend => by
      obtain ⟨hlt, hread⟩ := hvalue.complete
      have hlt' := hend.length_lt
      refine ⟨by omega, expect_eq_none_iff.mpr fun _ => hvalue.not_bracket, fun fuel hfuel => ?_⟩
      obtain ⟨fuel, rfl⟩ : ∃ k, fuel = k + 1 := ⟨fuel - 1, by omega⟩
      rw [readItems, hread fuel (by omega), Option.bind_some, expect_eq_some.mpr hend]
      rfl
  | s, _, r, .next hvalue hcomma hrest => by
      obtain ⟨hlt, hread⟩ := hvalue.complete
      obtain ⟨hlt'', -, hread'⟩ := hrest.complete
      have hlt' := hcomma.length_lt
      refine ⟨by omega, expect_eq_none_iff.mpr fun _ => hvalue.not_bracket, fun fuel hfuel => ?_⟩
      obtain ⟨fuel, rfl⟩ : ∃ k, fuel = k + 1 := ⟨fuel - 1, by omega⟩
      rw [readItems, hread fuel (by omega), Option.bind_some, expect_eq_none hcomma (by decide),
        expect_eq_some.mpr hcomma, Option.bind_some, hread' fuel (by omega)]
      rfl

theorem ReadsMembers.complete : ∀ {s : Bytes} {ms : List (Bytes × JsonValue)} {r : Bytes},
    ReadsMembers s ms r → r.length < s.length ∧ expect 125 s = none ∧
      ∀ fuel, 2 * s.length ≤ fuel + 2 * r.length → readMembers fuel s = some (ms, r)
  | s, _, r, .last hname hvalue hend => by
      obtain ⟨hlt, hread⟩ := hvalue.complete
      have hlt₀ := hname.length_lt
      have hlt' := hend.length_lt
      obtain ⟨s', hquote, _⟩ := id hname
      refine ⟨by omega, expect_eq_none hquote (by decide), fun fuel hfuel => ?_⟩
      obtain ⟨fuel, rfl⟩ : ∃ k, fuel = k + 1 := ⟨fuel - 1, by omega⟩
      rw [readMembers, readName_eq_some.mpr hname, Option.bind_some, hread fuel (by omega),
        Option.bind_some, expect_eq_some.mpr hend]
      rfl
  | s, _, r, .next hname hvalue hcomma hrest => by
      obtain ⟨hlt, hread⟩ := hvalue.complete
      obtain ⟨hlt'', -, hread'⟩ := hrest.complete
      have hlt₀ := hname.length_lt
      have hlt' := hcomma.length_lt
      obtain ⟨s', hquote, _⟩ := id hname
      refine ⟨by omega, expect_eq_none hquote (by decide), fun fuel hfuel => ?_⟩
      obtain ⟨fuel, rfl⟩ : ∃ k, fuel = k + 1 := ⟨fuel - 1, by omega⟩
      rw [readMembers, readName_eq_some.mpr hname, Option.bind_some, hread fuel (by omega),
        Option.bind_some, expect_eq_none hcomma (by decide), expect_eq_some.mpr hcomma,
        Option.bind_some, hread' fuel (by omega)]
      rfl

end

/-- The reader reads what the grammar allows, and nothing else. -/
theorem read_eq_some {s r : Bytes} {v : JsonValue} : read s = some (v, r) ↔ Reads s v r := by
  constructor
  · exact (readValue_sound _).1
  · intro h
    exact h.complete.2 _ (Nat.le_add_right _ _)

end JsonValue

end CloudHelp
