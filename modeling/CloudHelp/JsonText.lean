import CloudHelp.Utf8

/-!
# The text of a JSON string

`escape` is what `encoding/json` writes between the quotes of a string, with or without the HTML
escapes of `Encoder.SetEscapeHTML`. A byte that is not UTF-8 is written as U+FFFD, so the text loses
that byte; of a valid string it loses nothing (`escape_injOn`). The text never
holds a bare quote, which makes the end of a string visible to a reader (`stringText_append_inj`).
-/

namespace CloudHelp.JsonText

open Utf8

/-- Bytes copied as they are: `htmlSafeSet`, or `safeSet` when HTML escapes are off. -/
def safe (html : Bool) (b : UInt8) : Bool :=
  0x20 ≤ b.toNat && b.toNat < 0x80 && b != 34 && b != 92 &&
    !(html && (b == 38 || b == 60 || b == 62))

def hexDigit (n : ℕ) : UInt8 := if n < 10 then UInt8.ofNat (48 + n) else UInt8.ofNat (87 + n)

def escapeByte (html : Bool) (b : UInt8) : Bytes :=
  if safe html b then [b]
  else if b = 92 ∨ b = 34 then [92, b]
  else if b = 8 then [92, 98]
  else if b = 12 then [92, 102]
  else if b = 10 then [92, 110]
  else if b = 13 then [92, 114]
  else if b = 9 then [92, 116]
  else [92, 117, 48, 48, hexDigit (b.toNat / 16), hexDigit (b.toNat % 16)]

def escapePiece (html : Bool) : Piece → Bytes
  | .bad _ => replacement
  | .rune [b] => escapeByte html b
  | .rune code =>
      -- U+2028 and U+2029 end a line in JavaScript and are always escaped
      if code = [0xE2, 0x80, 0xA8] then [92, 117, 50, 48, 50, 56]
      else if code = [0xE2, 0x80, 0xA9] then [92, 117, 50, 48, 50, 57]
      else code

def escapePieces (html : Bool) (s : Bytes) : Bytes := (pieces s).flatMap (escapePiece html)

-- a run of safe bytes is copied at once
def escape (html : Bool) (s : Bytes) : Bytes :=
  if s.all (safe html) then s else escapePieces html s

theorem escapePieces_of_safe {html : Bool} {s : Bytes} (h : ∀ c ∈ s, safe html c = true) :
    escapePieces html s = s := by
  have ha : ∀ c ∈ s, c.toNat < 128 := by
    intro c hc
    have := h c hc
    simp only [safe, Bool.and_eq_true, decide_eq_true_eq] at this
    exact this.1.1.1.2
  rw [escapePieces, pieces_of_ascii ha]
  induction s with
  | nil => rfl
  | cons c s ih =>
      have hc := h c List.mem_cons_self
      rw [List.map_cons, List.flatMap_cons, ih (fun d hd => h d (List.mem_cons_of_mem _ hd))
        (fun d hd => ha d (List.mem_cons_of_mem _ hd))]
      simp [escapePiece, escapeByte, hc]

theorem escape_eq (html : Bool) (s : Bytes) : escape html s = escapePieces html s := by
  unfold escape
  split_ifs with h
  · exact (escapePieces_of_safe (List.all_eq_true.mp h)).symm
  · rfl

theorem escape_of_safe {html : Bool} {s : Bytes} (h : ∀ c ∈ s, safe html c = true) :
    escape html s = s := by
  rw [escape_eq, escapePieces_of_safe h]

/-! ## Reading one piece back -/

def hexValue (c : UInt8) : ℕ := if c.toNat < 58 then c.toNat - 48 else c.toNat - 87

def readEscape : Bytes → Option (Piece × Bytes)
  | [] => none
  | c :: rest =>
      if c = 117 then
        match rest with
        | p :: _ :: x :: y :: rest =>
            if p = 48 then some (.rune [UInt8.ofNat (16 * hexValue x + hexValue y)], rest)
            else some (.rune [0xE2, 0x80, UInt8.ofNat (112 + y.toNat)], rest)
        | _ => none
      else if c = 98 then some (.rune [8], rest)
      else if c = 102 then some (.rune [12], rest)
      else if c = 110 then some (.rune [10], rest)
      else if c = 114 then some (.rune [13], rest)
      else if c = 116 then some (.rune [9], rest)
      else some (.rune [c], rest)

def readPiece : Bytes → Option (Piece × Bytes)
  | [] => none
  | a :: rest =>
      if a = 92 then readEscape rest
      else some (.rune ((a :: rest).take (runeWidth (a :: rest))),
        (a :: rest).drop (runeWidth (a :: rest)))

theorem hexValue_hexDigit : ∀ n < 16, hexValue (hexDigit n) = n := by decide

theorem readPiece_of_isRune {code : Bytes} (hc : IsRune code) (h : code.head? ≠ some 92)
    (r : Bytes) : readPiece (code ++ r) = some (.rune code, r) := by
  cases code with
  | nil => exact absurd rfl hc.1
  | cons a rest =>
      have ha : a ≠ 92 := by simpa using h
      have hw := hc.runeWidth_append r
      rw [List.cons_append] at hw ⊢
      rw [readPiece, if_neg ha, hw]
      simp

theorem readPiece_escapeByte (html : Bool) {b : UInt8} (hb : IsRune [b]) (r : Bytes) :
    readPiece (escapeByte html b ++ r) = some (.rune [b], r) := by
  unfold escapeByte
  split_ifs with hs hq h1 h2 h3 h4 h5
  · apply readPiece_of_isRune hb
    simp only [safe, Bool.and_eq_true, bne_iff_ne, ne_eq] at hs
    simpa using hs.1.2
  · rcases hq with rfl | rfl <;> rfl
  · subst h1; rfl
  · subst h2; rfl
  · subst h3; rfl
  · subst h4; rfl
  · subst h5; rfl
  · have hlt := b.toNat_lt
    have hx : 16 * (b.toNat / 16) + b.toNat % 16 = b.toNat := by omega
    simp [readPiece, readEscape, hexValue_hexDigit _ (show b.toNat / 16 < 16 by omega),
      hexValue_hexDigit _ (show b.toNat % 16 < 16 by omega), hx]

/-- A well-formed encoding longer than one byte starts above the ASCII range. -/
theorem head_ne_of_isRune {a b : UInt8} {rest : Bytes} (h : IsRune (a :: b :: rest)) :
    ¬ a.toNat < 128 := by
  intro ha
  obtain ⟨hl, _, _⟩ := runeWidth_eq_succ h.2
  rw [leadWidth, if_pos ha] at hl
  simp at hl

theorem readPiece_escapePiece (html : Bool) {code : Bytes} (hc : IsRune code) (r : Bytes) :
    readPiece (escapePiece html (.rune code) ++ r) = some (.rune code, r) := by
  match code, hc with
  | [], hc => exact absurd rfl hc.1
  | [b], hc => exact readPiece_escapeByte html hc r
  | a :: b :: rest, hc =>
      rw [escapePiece]
      · split_ifs with h1 h2
        · rw [h1]; rfl
        · rw [h2]; rfl
        · apply readPiece_of_isRune hc
          have := head_ne_of_isRune hc
          simp only [List.head?_cons, ne_eq, Option.some.injEq]
          rintro rfl
          exact this (by decide)
      · intro c hcontra
        simp at hcontra

theorem escapePiece_append_inj {html : Bool} {c d : Bytes} (hc : IsRune c) (hd : IsRune d)
    {r s : Bytes} (h : escapePiece html (.rune c) ++ r = escapePiece html (.rune d) ++ s) :
    c = d ∧ r = s := by
  have hr := readPiece_escapePiece html hc r
  rw [h, readPiece_escapePiece html hd s] at hr
  simp only [Option.some.injEq, Prod.mk.injEq, Piece.rune.injEq] at hr
  exact ⟨hr.1.symm, hr.2.symm⟩

theorem escapePiece_ne_nil {html : Bool} {c : Bytes} (hc : IsRune c) :
    escapePiece html (.rune c) ≠ [] := by
  intro h
  have hr := readPiece_escapePiece html hc []
  rw [h] at hr
  simp [readPiece] at hr

/-! ## Injectivity on valid strings -/

theorem flatMap_escapePiece_inj {html : Bool} {l m : List Piece}
    (hl : ∀ p ∈ l, ∃ c, p = .rune c ∧ IsRune c) (hm : ∀ p ∈ m, ∃ c, p = .rune c ∧ IsRune c)
    (h : l.flatMap (escapePiece html) = m.flatMap (escapePiece html)) : l = m := by
  induction l generalizing m with
  | nil =>
      cases m with
      | nil => rfl
      | cons q m =>
          obtain ⟨d, rfl, hd⟩ := hm q List.mem_cons_self
          have hnil := List.append_eq_nil_iff.mp h.symm
          exact absurd hnil.1 (escapePiece_ne_nil hd)
  | cons p l ih =>
      obtain ⟨c, rfl, hc⟩ := hl p List.mem_cons_self
      cases m with
      | nil =>
          have hnil := List.append_eq_nil_iff.mp h
          exact absurd hnil.1 (escapePiece_ne_nil hc)
      | cons q m =>
          obtain ⟨d, rfl, hd⟩ := hm q List.mem_cons_self
          rw [List.flatMap_cons, List.flatMap_cons] at h
          obtain ⟨rfl, ht⟩ := escapePiece_append_inj hc hd h
          rw [ih (fun p hp => hl p (List.mem_cons_of_mem _ hp))
            (fun p hp => hm p (List.mem_cons_of_mem _ hp)) ht]

theorem pieces_of_validString {s : Bytes} (h : validString s = true) :
    ∀ p ∈ pieces s, ∃ c, p = .rune c ∧ IsRune c := by
  intro p hp
  have hr := List.all_eq_true.mp h p hp
  cases p with
  | rune c => exact ⟨c, rfl, isRune_of_mem_pieces hp⟩
  | bad b => simp [Piece.isRune] at hr

/-- A valid string is determined by its JSON text. -/
theorem escape_injOn {html : Bool} {s t : Bytes} (hs : validString s = true)
    (ht : validString t = true) (h : escape html s = escape html t) : s = t := by
  rw [escape_eq, escape_eq] at h
  exact pieces_injective
    (flatMap_escapePiece_inj (pieces_of_validString hs) (pieces_of_validString ht) h)

/-! ## Where a string ends -/

/-- Text without a bare quote, in which every backslash has its following byte; `escaped` says
that the byte before was a backslash. -/
def stringTextFrom : Bool → Bytes → Bool
  | escaped, [] => !escaped
  | true, _ :: rest => stringTextFrom false rest
  | false, a :: rest => a != 34 && stringTextFrom (a == 92) rest

def stringText (t : Bytes) : Bool := stringTextFrom false t

theorem stringText_cons {a : UInt8} (h1 : a ≠ 34) (h2 : a ≠ 92) (t : Bytes) :
    stringText (a :: t) = stringText t := by
  rw [stringText, stringTextFrom, bne_iff_ne.mpr h1, beq_eq_false_iff_ne.mpr h2, Bool.true_and,
    stringText]

theorem stringText_escaped (b : UInt8) (t : Bytes) :
    stringText (92 :: b :: t) = stringText t := by
  simp [stringText, stringTextFrom]

theorem stringText_append_of_plain {c : Bytes} (h : ∀ a ∈ c, a ≠ 34 ∧ a ≠ 92) (t : Bytes) :
    stringText (c ++ t) = stringText t := by
  induction c with
  | nil => rfl
  | cons a c ih =>
      obtain ⟨h1, h2⟩ := h a List.mem_cons_self
      rw [List.cons_append, stringText_cons h1 h2, ih fun b hb => h b (List.mem_cons_of_mem _ hb)]

theorem stringText_unicode {p q x y : UInt8} (h : ∀ a ∈ [p, q, x, y], a ≠ 34 ∧ a ≠ 92) (t : Bytes) :
    stringText (92 :: 117 :: p :: q :: x :: y :: t) = stringText t := by
  rw [stringText_escaped]
  exact stringText_append_of_plain (c := [p, q, x, y]) h t

theorem hexDigit_plain : ∀ n < 16, hexDigit n ≠ 34 ∧ hexDigit n ≠ 92 := by decide

theorem stringText_escapeByte (html : Bool) (b : UInt8) (t : Bytes) :
    stringText (escapeByte html b ++ t) = stringText t := by
  unfold escapeByte
  split_ifs with hs hq
  · simp only [safe, Bool.and_eq_true, bne_iff_ne, ne_eq] at hs
    exact stringText_cons hs.1.1.2 hs.1.2 t
  · exact stringText_escaped b t
  · exact stringText_escaped 98 t
  · exact stringText_escaped 102 t
  · exact stringText_escaped 110 t
  · exact stringText_escaped 114 t
  · exact stringText_escaped 116 t
  · have hlt := b.toNat_lt
    have hhigh := hexDigit_plain (b.toNat / 16) (by omega)
    have hlow := hexDigit_plain (b.toNat % 16) (by omega)
    apply stringText_unicode
    simp [hhigh, hlow]

theorem le_of_secondWithin {a b : UInt8} (h : secondWithin a b = true) : 128 ≤ b.toNat := by
  simp only [secondWithin, within, Bool.and_eq_true, decide_eq_true_eq] at h
  have := h.1
  split_ifs at this <;> omega

theorem le_of_mem_isRune {a b : UInt8} {rest : Bytes} (h : IsRune (a :: b :: rest)) :
    ∀ c ∈ a :: b :: rest, 128 ≤ c.toNat := by
  have ha := head_ne_of_isRune h
  obtain ⟨_, _, ht⟩ := runeWidth_eq_succ h.2
  rw [List.take_of_length_le le_rfl, tailOk, Bool.and_eq_true] at ht
  intro c hc
  rcases List.mem_cons.mp hc with rfl | hc
  · omega
  · rcases List.mem_cons.mp hc with rfl | hc
    · exact le_of_secondWithin ht.1
    · have hw := List.all_eq_true.mp ht.2 c hc
      simp only [within, Bool.and_eq_true, decide_eq_true_eq] at hw
      omega

theorem stringText_escapePiece (html : Bool) (p : Piece) (hp : ∀ c, p = .rune c → IsRune c)
    (t : Bytes) : stringText (escapePiece html p ++ t) = stringText t := by
  match p, hp with
  | .bad _, _ => exact stringText_unicode (p := 102) (q := 102) (x := 102) (y := 100) (by simp) t
  | .rune [], hp => exact absurd rfl (hp [] rfl).1
  | .rune [b], _ => exact stringText_escapeByte html b t
  | .rune (a :: b :: rest), hp =>
      rw [escapePiece]
      · split_ifs
        · exact stringText_unicode (p := 50) (q := 48) (x := 50) (y := 56) (by simp) t
        · exact stringText_unicode (p := 50) (q := 48) (x := 50) (y := 57) (by simp) t
        · apply stringText_append_of_plain
          intro c hc
          have hle := le_of_mem_isRune (hp _ rfl) c hc
          constructor <;> rintro rfl <;> revert hle <;> decide
      · intro c hcontra
        simp at hcontra

theorem stringText_escape (html : Bool) (s : Bytes) : stringText (escape html s) = true := by
  have hall : ∀ p ∈ pieces s, ∀ c, p = .rune c → IsRune c := by
    rintro p hp c rfl
    exact isRune_of_mem_pieces hp
  rw [escape_eq, escapePieces]
  generalize pieces s = l at hall
  induction l with
  | nil => rfl
  | cons p l ih =>
      rw [List.flatMap_cons, stringText_escapePiece html p (hall p List.mem_cons_self)]
      exact ih fun q hq => hall q (List.mem_cons_of_mem _ hq)

theorem stringTextFrom_append_inj {escaped : Bool} {t u r s : Bytes}
    (ht : stringTextFrom escaped t = true) (hu : stringTextFrom escaped u = true)
    (h : t ++ 34 :: r = u ++ 34 :: s) : t = u ∧ r = s := by
  induction t generalizing u escaped with
  | nil =>
      cases u with
      | nil => exact ⟨rfl, (List.cons.inj h).2⟩
      | cons a u =>
          obtain ⟨rfl, _⟩ := List.cons.inj h
          cases escaped <;> simp [stringTextFrom] at ht hu
  | cons a t ih =>
      cases u with
      | nil =>
          obtain ⟨rfl, _⟩ := List.cons.inj h
          cases escaped <;> simp [stringTextFrom] at ht hu
      | cons b u =>
          obtain ⟨rfl, hrest⟩ := List.cons.inj h
          cases escaped with
          | true =>
              obtain ⟨rfl, hs⟩ := ih ht hu hrest
              exact ⟨rfl, hs⟩
          | false =>
              rw [stringTextFrom, Bool.and_eq_true] at ht hu
              obtain ⟨rfl, hs⟩ := ih ht.2 hu.2 hrest
              exact ⟨rfl, hs⟩

/-- Two string texts followed by their closing quotes end at the same place. -/
theorem stringText_append_inj {t u r s : Bytes} (ht : stringText t = true)
    (hu : stringText u = true) (h : t ++ 34 :: r = u ++ 34 :: s) : t = u ∧ r = s :=
  stringTextFrom_append_inj ht hu h

end CloudHelp.JsonText
