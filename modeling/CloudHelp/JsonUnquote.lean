import CloudHelp.JsonEncoding

/-!
# Reading the text of a JSON string

`scanText` finds the end of a string as the scanner of `encoding/json` does, and `unquote` is what
the decoder makes of the text before it: escapes are replaced, halves of surrogate pairs are
joined, and what is not UTF-8 becomes U+FFFD. What is read is always UTF-8
(`validString_unquote`), and of a string that was UTF-8 when it was written nothing is lost
(`unquote_escape`).
-/

namespace CloudHelp.JsonText

open Utf8

/-! ## Where a string ends -/

/-- Where the scanner is: after a backslash, or with a number of hexadecimal digits still to come
after the next one, or neither. -/
inductive Scan where
  | plain
  | escape
  | hex (left : ℕ)
  deriving DecidableEq

def isHexDigit (c : UInt8) : Bool :=
  isDigit c || (65 ≤ c.toNat && c.toNat ≤ 70) || (97 ≤ c.toNat && c.toNat ≤ 102)

def Scan.next : Scan → UInt8 → Option Scan
  | .plain, c =>
      if c = 92 then some .escape
      else if c.toNat < 32 ∨ c = 34 then none
      else some .plain
  | .escape, c =>
      if c = 117 then some (.hex 3)
      else if c ∈ ([98, 102, 110, 114, 116, 92, 47, 34] : Bytes) then some .plain
      else none
  | .hex 0, c => if isHexDigit c then some .plain else none
  | .hex (left + 1), c => if isHexDigit c then some (.hex left) else none

/-- The text up to the quote that ends it, and what comes after that quote. -/
def scanText : Scan → Bytes → Option (Bytes × Bytes)
  | _, [] => none
  | state, c :: rest =>
      if state = .plain ∧ c = 34 then some ([], rest)
      else match state.next c with
        | none => none
        | some state => (scanText state rest).map fun found => (c :: found.1, found.2)

def Scan.run : Scan → Bytes → Option Scan
  | state, [] => some state
  | state, c :: rest => (state.next c).bind fun state => state.run rest

def IsText (t : Bytes) : Prop := Scan.plain.run t = some .plain

instance (t : Bytes) : Decidable (IsText t) := inferInstanceAs (Decidable (_ = _))

theorem Scan.run_append (state : Scan) (s t : Bytes) :
    state.run (s ++ t) = (state.run s).bind fun state => state.run t := by
  induction s generalizing state with
  | nil => rfl
  | cons c s ih =>
      rw [List.cons_append, Scan.run, Scan.run, Option.bind_assoc]
      congr 1
      funext state
      exact ih state

theorem IsText.append {s t : Bytes} (hs : IsText s) (ht : IsText t) : IsText (s ++ t) := by
  rw [IsText, Scan.run_append, hs]
  exact ht

theorem scanText_eq_some {state : Scan} {s t r : Bytes} :
    scanText state s = some (t, r) ↔ s = t ++ 34 :: r ∧ state.run t = some .plain := by
  induction s generalizing state t with
  | nil => simp [scanText]
  | cons c s ih =>
      rw [scanText]
      by_cases hend : state = .plain ∧ c = 34
      · obtain ⟨rfl, rfl⟩ := hend
        rw [if_pos ⟨rfl, rfl⟩]
        cases t with
        | nil => simp [Scan.run, eq_comm]
        | cons d t =>
            simp only [Option.some.injEq, Prod.mk.injEq, List.nil_eq, reduceCtorEq, false_and,
              List.cons_append, List.cons.injEq, false_iff, not_and]
            rintro ⟨rfl, _⟩
            simp [Scan.run, Scan.next]
      · rw [if_neg hend]
        cases t with
        | nil =>
            cases hnext : state.next c with
            | none =>
                simp only [reduceCtorEq, List.nil_append, List.cons.injEq, Scan.run,
                  Option.some.injEq, false_iff, not_and]
                exact fun hc hplain => hend ⟨hplain, hc.1⟩
            | some state' =>
                simp only [Option.map_eq_some_iff, Prod.mk.injEq, reduceCtorEq, false_and,
                  and_false, exists_false, List.nil_append, List.cons.injEq, Scan.run,
                  Option.some.injEq, false_iff, not_and]
                exact fun hc hplain => hend ⟨hplain, hc.1⟩
        | cons d t =>
            cases hnext : state.next c with
            | none =>
                simp only [reduceCtorEq, List.cons_append, List.cons.injEq, Scan.run, false_iff,
                  not_and]
                rintro ⟨rfl, _⟩
                simp [hnext]
            | some state' =>
                simp only [Option.map_eq_some_iff, Prod.exists, Prod.mk.injEq, List.cons.injEq,
                  List.cons_append, Scan.run]
                constructor
                · rintro ⟨t', r', hfound, ⟨rfl, rfl⟩, rfl⟩
                  obtain ⟨rfl, hrun⟩ := ih.mp hfound
                  exact ⟨⟨rfl, rfl⟩, by rw [hnext]; exact hrun⟩
                · rintro ⟨⟨rfl, rfl⟩, hrun⟩
                  rw [hnext] at hrun
                  exact ⟨t, r, ih.mpr ⟨rfl, hrun⟩, ⟨rfl, rfl⟩, rfl⟩

/-! ## What the text says -/

/-- `utf8.AppendRune` -/
def encodeRune (n : ℕ) : Bytes :=
  if n < 0x80 then [UInt8.ofNat n]
  else if n < 0x800 then [UInt8.ofNat (0xC0 + n / 64), UInt8.ofNat (0x80 + n % 64)]
  else if 0xD800 ≤ n ∧ n < 0xE000 ∨ 0x10FFFF < n then replacement
  else if n < 0x10000 then
    [UInt8.ofNat (0xE0 + n / 4096), UInt8.ofNat (0x80 + n / 64 % 64), UInt8.ofNat (0x80 + n % 64)]
  else
    [UInt8.ofNat (0xF0 + n / 262144), UInt8.ofNat (0x80 + n / 4096 % 64),
      UInt8.ofNat (0x80 + n / 64 % 64), UInt8.ofNat (0x80 + n % 64)]

def hexNat (c : UInt8) : ℕ :=
  if c.toNat < 58 then c.toNat - 48 else if c.toNat < 71 then c.toNat - 55 else c.toNat - 87

/-- The number of an escape with four hexadecimal digits. -/
def getu4 : Bytes → Option ℕ
  | b :: u :: w :: x :: y :: z :: _ =>
      if b = 92 ∧ u = 117 ∧ [w, x, y, z].all isHexDigit then
        some (((hexNat w * 16 + hexNat x) * 16 + hexNat y) * 16 + hexNat z)
      else none
  | _ => none

def unescape (c : UInt8) : Bytes :=
  if c = 98 then [8]
  else if c = 102 then [12]
  else if c = 110 then [10]
  else if c = 114 then [13]
  else if c = 116 then [9]
  else if c.toNat < 0x80 then [c]
  -- no scanned text comes here
  else replacement

def isSurrogate (n : ℕ) : Bool := 0xD800 ≤ n && n < 0xE000

/-- What the first character of a text says, and how many bytes of the text it takes. -/
def unquoteHead (a : UInt8) (rest : Bytes) : Bytes × ℕ :=
  if a = 92 then
    match getu4 (a :: rest), rest with
    | some n, _ =>
        if isSurrogate n then
          match getu4 (rest.drop 5) with
          | some m =>
              if n < 0xDC00 ∧ 0xDC00 ≤ m ∧ m < 0xE000 then
                (encodeRune ((n - 0xD800) * 1024 + (m - 0xDC00) + 0x10000), 12)
              else (replacement, 6)
          | none => (replacement, 6)
        else (encodeRune n, 6)
    | none, c :: _ => (unescape c, 2)
    | none, [] => (replacement, 1)
  else
    match runeWidth (a :: rest) with
    | 0 => (replacement, 1)
    | width + 1 => ((a :: rest).take (width + 1), width + 1)

/-- What the text says after `skip` more bytes of a character already read. -/
def unquoteAfter : ℕ → Bytes → Bytes
  | _, [] => []
  | skip + 1, _ :: rest => unquoteAfter skip rest
  | 0, a :: rest => (unquoteHead a rest).1 ++ unquoteAfter ((unquoteHead a rest).2 - 1) rest

def unquote (t : Bytes) : Bytes := unquoteAfter 0 t

/-! ## What is read is UTF-8 -/

theorem isRune_cons {a : UInt8} {rest : Bytes} (hlead : leadWidth a = rest.length + 1)
    (htail : tailOk a rest = true) : IsRune (a :: rest) := by
  refine ⟨List.cons_ne_nil _ _, ?_⟩
  rw [runeWidth_of_lead hlead le_rfl (by rwa [List.take_length]), List.length_cons]

theorem toNat_ofNat_of_lt {n : ℕ} (h : n < 256) : (UInt8.ofNat n).toNat = n := by
  rw [UInt8.toNat_ofNat', Nat.mod_eq_of_lt h]

theorem within_ofNat {low high n : ℕ} (hlow : low ≤ n) (hhigh : n ≤ high) (h : n < 256) :
    within low high (UInt8.ofNat n) = true := by
  simp [within, toNat_ofNat_of_lt h, hlow, hhigh]

theorem secondWithin_ofNat {a n : ℕ} (ha : a < 256) (hn : n < 256)
    (hlow : (if a = 0xE0 then 0xA0 else if a = 0xF0 then 0x90 else 0x80) ≤ n)
    (hhigh : n ≤ if a = 0xED then 0x9F else if a = 0xF4 then 0x8F else 0xBF) :
    secondWithin (UInt8.ofNat a) (UInt8.ofNat n) = true := by
  have heq : ∀ k : UInt8, UInt8.ofNat a = k ↔ a = k.toNat := by
    intro k
    rw [← UInt8.toNat_inj, toNat_ofNat_of_lt ha]
  unfold secondWithin
  simp only [heq]
  exact within_ofNat hlow hhigh hn

theorem leadWidth_ofNat {n : ℕ} (h : n < 256) :
    leadWidth (UInt8.ofNat n) = if n < 0x80 then 1 else if 0xC2 ≤ n ∧ n ≤ 0xDF then 2
      else if 0xE0 ≤ n ∧ n ≤ 0xEF then 3 else if 0xF0 ≤ n ∧ n ≤ 0xF4 then 4 else 0 := by
  simp only [leadWidth, within, toNat_ofNat_of_lt h, Bool.and_eq_true, decide_eq_true_eq]

theorem isRune_encodeRune (n : ℕ) : IsRune (encodeRune n) := by
  unfold encodeRune
  split_ifs with h1 h2 h3 h4
  · apply isRune_cons
    · rw [leadWidth_ofNat (by omega), if_pos h1]
      rfl
    · rfl
  · apply isRune_cons
    · rw [leadWidth_ofNat (by omega), if_neg (by omega), if_pos (by omega)]
      rfl
    · rw [tailOk, Bool.and_eq_true]
      refine ⟨secondWithin_ofNat (by omega) (by omega) ?_ ?_, rfl⟩ <;> split_ifs <;> omega
  · exact isRune_replacement
  · apply isRune_cons
    · rw [leadWidth_ofNat (by omega), if_neg (by omega), if_neg (by omega), if_pos (by omega)]
      rfl
    · rw [tailOk, Bool.and_eq_true]
      refine ⟨secondWithin_ofNat (by omega) (by omega) ?_ ?_, ?_⟩
      · split_ifs <;> omega
      · split_ifs <;> omega
      · simp only [List.all_cons, List.all_nil, Bool.and_true]
        exact within_ofNat (by omega) (by omega) (by omega)
  · apply isRune_cons
    · rw [leadWidth_ofNat (by omega), if_neg (by omega), if_neg (by omega), if_neg (by omega),
        if_pos (by omega)]
      rfl
    · rw [tailOk, Bool.and_eq_true]
      refine ⟨secondWithin_ofNat (by omega) (by omega) ?_ ?_, ?_⟩
      · split_ifs <;> omega
      · split_ifs <;> omega
      · simp only [List.all_cons, List.all_nil, Bool.and_true, Bool.and_eq_true]
        exact ⟨within_ofNat (by omega) (by omega) (by omega),
          within_ofNat (by omega) (by omega) (by omega)⟩

theorem isRune_of_ascii {c : UInt8} (h : c.toNat < 0x80) : IsRune [c] := by
  apply isRune_cons
  · simp [leadWidth, h]
  · rfl

theorem isRune_unescape (c : UInt8) : IsRune (unescape c) := by
  unfold unescape
  split_ifs with h1 h2 h3 h4 h5 h6
  · exact isRune_of_ascii (by decide)
  · exact isRune_of_ascii (by decide)
  · exact isRune_of_ascii (by decide)
  · exact isRune_of_ascii (by decide)
  · exact isRune_of_ascii (by decide)
  · exact isRune_of_ascii h6
  · exact isRune_replacement

theorem isRune_unquoteHead (a : UInt8) (rest : Bytes) : IsRune (unquoteHead a rest).1 := by
  unfold unquoteHead
  split_ifs with ha
  · split
    · split_ifs with hs
      · split
        · split_ifs
          · dsimp only
            exact isRune_encodeRune _
          · exact isRune_replacement
        · exact isRune_replacement
      · dsimp only
        exact isRune_encodeRune _
    · exact isRune_unescape _
    · exact isRune_replacement
  · split
    · exact isRune_replacement
    · next width hwidth => exact isRune_take hwidth

/-- The walk over a string takes a whole encoding at its head as one piece. -/
theorem pieces_append {code : Bytes} (h : IsRune code) (r : Bytes) :
    pieces (code ++ r) = .rune code :: pieces r := by
  have hskip : ∀ l : Bytes, piecesAfter l.length (l ++ r) = piecesAfter 0 r := by
    intro l
    induction l with
    | nil => rfl
    | cons a l ih => exact ih
  cases code with
  | nil => exact absurd rfl h.1
  | cons a rest =>
      have hwidth := h.runeWidth_append r
      rw [List.cons_append, List.length_cons] at hwidth
      rw [pieces, List.cons_append, piecesAfter, hwidth]
      simp only [hskip, List.take_succ_cons, List.take_left', pieces]

theorem validString_append {code r : Bytes} (h : IsRune code) (hr : validString r = true) :
    validString (code ++ r) = true := by
  rw [validString, pieces_append h, List.all_cons]
  exact hr

theorem validString_unquoteAfter (skip : ℕ) (t : Bytes) :
    validString (unquoteAfter skip t) = true := by
  induction t generalizing skip with
  | nil => cases skip <;> rfl
  | cons a rest ih =>
      cases skip with
      | succ skip => exact ih skip
      | zero => exact validString_append (isRune_unquoteHead a rest) (ih _)

theorem validString_unquote (t : Bytes) : validString (unquote t) = true :=
  validString_unquoteAfter 0 t

/-! ## Nothing is lost -/

theorem unquoteAfter_length (l r : Bytes) : unquoteAfter l.length (l ++ r) = unquote r := by
  induction l with
  | nil => rfl
  | cons a l ih => exact ih

/-- A character of the text is read, and then the rest of it. -/
theorem unquote_append {a : UInt8} {l code r : Bytes}
    (h : unquoteHead a (l ++ r) = (code, l.length + 1)) :
    unquote (a :: l ++ r) = code ++ unquote r := by
  rw [unquote, List.cons_append, unquoteAfter, h, Nat.add_sub_cancel, unquoteAfter_length]

theorem unquote_rune {code : Bytes} (h : IsRune code) (hhead : code.head? ≠ some 92) (r : Bytes) :
    unquote (code ++ r) = code ++ unquote r := by
  cases code with
  | nil => exact absurd rfl h.1
  | cons a rest =>
      have ha : a ≠ 92 := by simpa using hhead
      have hwidth := h.runeWidth_append r
      rw [List.cons_append, List.length_cons] at hwidth
      apply unquote_append
      unfold unquoteHead
      rw [if_neg ha, hwidth]
      simp

/-- An escape of one character. -/
theorem unquote_escaped {c : UInt8} (hc : c ≠ 117) (r : Bytes) :
    unquote ([92, c] ++ r) = unescape c ++ unquote r := by
  apply unquote_append
  have hget : getu4 (92 :: ([c] ++ r)) = none := by
    unfold getu4
    split
    · next heq =>
        simp only [List.cons_append, List.cons.injEq] at heq
        obtain ⟨-, rfl, -⟩ := heq
        rw [if_neg fun h => hc h.2.1]
    · rfl
  unfold unquoteHead
  rw [if_pos rfl, hget]
  rfl

theorem isHexDigit_hexDigit : ∀ n < 16, isHexDigit (hexDigit n) = true := by decide

theorem hexNat_hexDigit : ∀ n < 16, hexNat (hexDigit n) = n := by decide

/-- An escape with four digits that is no half of a pair. -/
theorem unquote_unicode {w x y z : UInt8} {n : ℕ} (r : Bytes)
    (hdigits : [w, x, y, z].all isHexDigit = true)
    (hn : ((hexNat w * 16 + hexNat x) * 16 + hexNat y) * 16 + hexNat z = n)
    (hs : isSurrogate n = false) :
    unquote ([92, 117, w, x, y, z] ++ r) = encodeRune n ++ unquote r := by
  apply unquote_append
  have hget : getu4 (92 :: ([117, w, x, y, z] ++ r)) = some n := by
    simp only [getu4, List.cons_append, List.nil_append, hdigits, and_self, if_true, hn]
  unfold unquoteHead
  rw [if_pos rfl, hget]
  simp only [hs, Bool.false_eq_true, if_false]
  rfl

theorem unquote_escapeByte (html : Bool) {b : UInt8} (hb : b.toNat < 0x80) (r : Bytes) :
    unquote (escapeByte html b ++ r) = b :: unquote r := by
  unfold escapeByte
  split_ifs with hs hq h1 h2 h3 h4 h5
  · apply unquote_rune (isRune_of_ascii hb)
    simp only [safe, Bool.and_eq_true, bne_iff_ne, ne_eq] at hs
    simpa using hs.1.2
  · rcases hq with rfl | rfl
    · exact unquote_escaped (c := 92) (by decide) r
    · exact unquote_escaped (c := 34) (by decide) r
  · rw [h1]
    exact unquote_escaped (c := 98) (by decide) r
  · rw [h2]
    exact unquote_escaped (c := 102) (by decide) r
  · rw [h3]
    exact unquote_escaped (c := 110) (by decide) r
  · rw [h4]
    exact unquote_escaped (c := 114) (by decide) r
  · rw [h5]
    exact unquote_escaped (c := 116) (by decide) r
  · have hhigh : b.toNat / 16 < 16 := by omega
    have hlow : b.toNat % 16 < 16 := by omega
    have hn : ((hexNat 48 * 16 + hexNat 48) * 16 + hexNat (hexDigit (b.toNat / 16))) * 16 +
        hexNat (hexDigit (b.toNat % 16)) = b.toNat := by
      rw [hexNat_hexDigit _ hhigh, hexNat_hexDigit _ hlow]
      have hzero : hexNat 48 = 0 := rfl
      omega
    rw [unquote_unicode r _ hn, encodeRune, if_pos hb, UInt8.ofNat_toNat, List.singleton_append]
    · simp only [isSurrogate, Bool.and_eq_false_iff, decide_eq_false_iff_not]
      omega
    · simp only [List.all_cons, List.all_nil, isHexDigit_hexDigit _ hhigh,
        isHexDigit_hexDigit _ hlow]
      rfl

theorem unquote_escapePiece (html : Bool) {code : Bytes} (hc : IsRune code) (r : Bytes) :
    unquote (escapePiece html (.rune code) ++ r) = code ++ unquote r := by
  match code, hc with
  | [], hc => exact absurd rfl hc.1
  | [b], hc =>
      apply unquote_escapeByte
      by_contra hb
      have hlead := (runeWidth_eq_succ hc.2).1
      unfold leadWidth at hlead
      rw [if_neg hb] at hlead
      split_ifs at hlead <;> simp at hlead
  | a :: b :: rest, hc =>
      rw [escapePiece]
      · split_ifs with h1 h2
        · rw [h1]
          exact unquote_unicode (n := 0x2028) r (by decide) (by decide) (by decide)
        · rw [h2]
          exact unquote_unicode (n := 0x2029) r (by decide) (by decide) (by decide)
        · apply unquote_rune hc
          have hlarge := head_ne_of_isRune hc
          simp only [List.head?_cons, ne_eq, Option.some.injEq]
          rintro rfl
          exact hlarge (by decide)
      · intro c hcontra
        simp at hcontra

/-- A string that is UTF-8 is read back from what is written for it. -/
theorem unquote_escape (html : Bool) {s : Bytes} (h : validString s = true) :
    unquote (escape html s) = s := by
  have hall := pieces_of_validString h
  rw [escape_eq, escapePieces]
  conv_rhs => rw [← flatMap_bytes_pieces s]
  generalize pieces s = l at hall
  induction l with
  | nil => rfl
  | cons p l ih =>
      obtain ⟨hp, hl⟩ := List.forall_mem_cons.mp hall
      obtain ⟨code, rfl, hcode⟩ := hp
      rw [List.flatMap_cons, unquote_escapePiece html hcode, ih hl, List.flatMap_cons, Piece.bytes]

/-! ## What is written is a text -/

theorem isText_cons {c : UInt8} {t : Bytes} (hc : 32 ≤ c.toNat) (h34 : c ≠ 34) (h92 : c ≠ 92)
    (ht : IsText t) : IsText (c :: t) := by
  have hnext : Scan.plain.next c = some .plain := by
    rw [Scan.next, if_neg h92, if_neg (by rintro (h | h); exacts [by omega, h34 h])]
  rw [IsText, Scan.run, hnext]
  exact ht

theorem isText_of_plain {t : Bytes} (h : ∀ c ∈ t, 32 ≤ c.toNat ∧ c ≠ 34 ∧ c ≠ 92) : IsText t := by
  induction t with
  | nil => rfl
  | cons c t ih =>
      obtain ⟨hc, ht⟩ := List.forall_mem_cons.mp h
      exact isText_cons hc.1 hc.2.1 hc.2.2 (ih ht)

theorem isText_unicode {w x y z : UInt8} (h : [w, x, y, z].all isHexDigit = true) :
    IsText [92, 117, w, x, y, z] := by
  simp only [List.all_cons, List.all_nil, Bool.and_true, Bool.and_eq_true] at h
  obtain ⟨hw, hx, hy, hz⟩ := h
  simp [IsText, Scan.run, Scan.next, hw, hx, hy, hz]

theorem isText_escapeByte (html : Bool) (b : UInt8) : IsText (escapeByte html b) := by
  unfold escapeByte
  split_ifs with hs hq
  · simp only [safe, Bool.and_eq_true, decide_eq_true_eq, bne_iff_ne, ne_eq] at hs
    exact isText_cons hs.1.1.1.1 hs.1.1.2 hs.1.2 rfl
  · rcases hq with rfl | rfl <;> rfl
  · rfl
  · rfl
  · rfl
  · rfl
  · rfl
  · have hlt := b.toNat_lt
    apply isText_unicode
    simp only [List.all_cons, List.all_nil,
      isHexDigit_hexDigit (b.toNat / 16) (by omega), isHexDigit_hexDigit (b.toNat % 16) (by omega)]
    rfl

theorem isText_escapePiece (html : Bool) (p : Piece) (hp : ∀ c, p = .rune c → IsRune c) :
    IsText (escapePiece html p) := by
  match p, hp with
  | .bad _, _ => exact (by decide : IsText replacement)
  | .rune [], hp => exact absurd rfl (hp [] rfl).1
  | .rune [b], _ => exact isText_escapeByte html b
  | .rune (a :: b :: rest), hp =>
      rw [escapePiece]
      · split_ifs
        · exact isText_unicode (by decide)
        · exact isText_unicode (by decide)
        · apply isText_of_plain
          intro c hc
          have hle := le_of_mem_isRune (hp _ rfl) c hc
          refine ⟨by omega, ?_, ?_⟩ <;> rintro rfl <;> revert hle <;> decide
      · intro c hcontra
        simp at hcontra

theorem isText_escape (html : Bool) (s : Bytes) : IsText (escape html s) := by
  have hall : ∀ p ∈ pieces s, ∀ c, p = .rune c → IsRune c := by
    rintro p hp c rfl
    exact isRune_of_mem_pieces hp
  rw [escape_eq, escapePieces]
  generalize pieces s = l at hall
  induction l with
  | nil => rfl
  | cons p l ih =>
      obtain ⟨hp, hl⟩ := List.forall_mem_cons.mp hall
      rw [List.flatMap_cons]
      exact (isText_escapePiece html p hp).append (ih hl)

end CloudHelp.JsonText
