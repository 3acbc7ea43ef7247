import CloudHelp.Utf8
import Mathlib.Data.List.DropRight

/-!
# Space and control characters of a byte string

The character classes `unicode.IsSpace` and `unicode.IsControl` on the pieces of a string, and
`strings.TrimSpace`. A byte that belongs to no encoding is in neither class. `trim` cuts a list at
both ends; on the pieces of a string it is `TrimSpace`, on its bytes it is the `btrim` of SQL.
-/

namespace CloudHelp

def trim {α : Type} (p : α → Bool) (l : List α) : List α := (l.dropWhile p).rdropWhile p

theorem trim_sublist {α : Type} (p : α → Bool) (l : List α) : (trim p l).Sublist l :=
  (List.rdropWhile_prefix p _).sublist.trans (List.dropWhile_sublist p)

theorem trim_eq_self_iff {α : Type} {p : α → Bool} {l : List α} :
    trim p l = l ↔ (∀ a ∈ l.head?, p a = false) ∧ ∀ a ∈ l.getLast?, p a = false := by
  cases l with
  | nil => simp [trim]
  | cons a rest =>
      constructor
      · intro h
        have hdrop : (a :: rest).dropWhile p = a :: rest := by
          apply (List.dropWhile_sublist p).eq_of_length_le
          have hle := (List.rdropWhile_prefix p ((a :: rest).dropWhile p)).length_le
          have hlen := congrArg List.length h
          unfold trim at hlen
          omega
        rw [trim, hdrop, List.rdropWhile_eq_self_iff] at h
        rw [List.dropWhile_eq_self_iff] at hdrop
        constructor
        · intro b hb
          cases hb
          exact Bool.eq_false_of_not_eq_true (hdrop (Nat.succ_pos _))
        · intro b hb
          have hlast := List.getLast_of_mem_getLast? hb
          rw [← hlast]
          simpa using h (by simp)
      · rintro ⟨hhead, hlast⟩
        have hdrop : (a :: rest).dropWhile p = a :: rest :=
          List.dropWhile_cons_of_neg (by simp [hhead a rfl])
        rw [trim, hdrop, List.rdropWhile_eq_self_iff]
        intro hne
        simp [hlast _ (List.getLast?_eq_some_getLast hne)]

namespace Utf8

/-- `unicode.IsSpace`: the ASCII spaces, U+0085, U+00A0, U+1680, U+2000 to U+200A, U+2028, U+2029,
U+202F, U+205F and U+3000. -/
def Piece.isSpace : Piece → Bool
  | .rune [c] => within 9 13 c || c == 32
  | .rune [a, b] => a == 0xC2 && (b == 0x85 || b == 0xA0)
  | .rune [a, b, c] =>
      (a == 0xE1 && b == 0x9A && c == 0x80) ||
        (a == 0xE2 && b == 0x80 && (within 0x80 0x8A c || c == 0xA8 || c == 0xA9 || c == 0xAF)) ||
        (a == 0xE2 && b == 0x81 && c == 0x9F) || (a == 0xE3 && b == 0x80 && c == 0x80)
  | _ => false

/-- `unicode.IsControl`: U+0000 to U+001F and U+007F to U+009F. -/
def Piece.isControl : Piece → Bool
  | .rune [c] => within 0 31 c || c == 127
  | .rune [a, b] => a == 0xC2 && within 0x80 0x9F b
  | _ => false

def trimSpace (s : Bytes) : Bytes := (trim Piece.isSpace (pieces s)).flatMap Piece.bytes

def runeCount (s : Bytes) : ℕ := (pieces s).length

theorem IsRune.length_le {code : Bytes} (h : IsRune code) : code.length ≤ 4 := by
  obtain ⟨hne, hw⟩ := h
  cases code with
  | nil => exact absurd rfl hne
  | cons a rest =>
      obtain ⟨hl, -, -⟩ := runeWidth_eq_succ hw
      rw [List.length_cons, ← hl, leadWidth]
      split_ifs <;> omega

/-- Only the first byte of an encoding can be an ASCII character. -/
theorem IsRune.tail_not_ascii {a : UInt8} {rest : Bytes} (h : IsRune (a :: rest)) :
    ∀ b ∈ rest, 0x80 ≤ b.toNat := by
  obtain ⟨-, -, ht⟩ := runeWidth_eq_succ h.2
  rw [List.take_length] at ht
  cases rest with
  | nil => simp
  | cons b rest =>
      simp only [tailOk, Bool.and_eq_true, List.all_eq_true] at ht
      obtain ⟨hsecond, hothers⟩ := ht
      intro c hc
      rcases List.mem_cons.mp hc with rfl | hc
      · simp only [secondWithin, within, Bool.and_eq_true, decide_eq_true_eq] at hsecond
        have hlow := hsecond.1
        split_ifs at hlow <;> omega
      · have := hothers c hc
        simp only [within, Bool.and_eq_true, decide_eq_true_eq] at this
        exact this.1

/-- An encoding that ends in an ASCII character is that character. -/
theorem IsRune.eq_singleton {code : Bytes} {c : UInt8} (h : IsRune code)
    (hlast : code.getLast? = some c) (hc : c.toNat < 0x80) : code = [c] := by
  cases code with
  | nil => exact absurd rfl h.1
  | cons a rest =>
      cases rest with
      | nil => simpa using hlast
      | cons b rest =>
          rw [List.getLast?_cons_cons] at hlast
          have := h.tail_not_ascii c (List.mem_of_getLast? hlast)
          omega

theorem bytes_ne_nil {s : Bytes} {p : Piece} (h : p ∈ pieces s) : p.bytes ≠ [] := by
  cases p with
  | rune code => exact (isRune_of_mem_pieces h).1
  | bad b => simp [Piece.bytes]

theorem exists_rune {s : Bytes} (hs : validString s = true) {p : Piece} (h : p ∈ pieces s) :
    ∃ code, p = .rune code ∧ IsRune code := by
  have hp := List.all_eq_true.mp hs p h
  cases p with
  | rune code => exact ⟨code, rfl, isRune_of_mem_pieces h⟩
  | bad b => cases hp

theorem length_flatMap_bytes_le {l : List Piece} (h : ∀ p ∈ l, p.bytes.length ≤ 4) :
    (l.flatMap Piece.bytes).length ≤ 4 * l.length := by
  induction l with
  | nil => simp
  | cons p l ih =>
      have hp := h p List.mem_cons_self
      have hl := ih fun q hq => h q (List.mem_cons_of_mem _ hq)
      simp only [List.flatMap_cons, List.length_append, List.length_cons]
      omega

theorem length_le_of_validString {s : Bytes} (hs : validString s = true) :
    s.length ≤ 4 * runeCount s := by
  have hbound : ((pieces s).flatMap Piece.bytes).length ≤ 4 * (pieces s).length := by
    apply length_flatMap_bytes_le
    intro p hp
    obtain ⟨code, rfl, hcode⟩ := exists_rune hs hp
    exact hcode.length_le
  rwa [flatMap_bytes_pieces] at hbound

/-- Pieces are left out of a list only together with their bytes. -/
theorem eq_of_flatMap_bytes {l m : List Piece} (h : l.Sublist m) (hm : ∀ p ∈ m, p.bytes ≠ [])
    (heq : l.flatMap Piece.bytes = m.flatMap Piece.bytes) : l = m := by
  induction h with
  | slnil => rfl
  | @cons l m p hsub ih =>
      have hle := (hsub.flatMap Piece.bytes).length_le
      have hpos := List.length_pos_iff.mpr (hm p List.mem_cons_self)
      have hlen := congrArg List.length heq
      rw [List.flatMap_cons, List.length_append] at hlen
      omega
  | @cons_cons l m p hsub ih =>
      rw [List.flatMap_cons, List.flatMap_cons] at heq
      rw [ih (fun q hq => hm q (List.mem_cons_of_mem _ hq)) (List.append_cancel_left heq)]

theorem trimSpace_eq_self_iff {s : Bytes} :
    trimSpace s = s ↔ trim Piece.isSpace (pieces s) = pieces s := by
  constructor
  · intro h
    apply eq_of_flatMap_bytes (trim_sublist _ _) fun p hp => bytes_ne_nil hp
    rw [flatMap_bytes_pieces]
    exact h
  · intro h
    rw [trimSpace, h, flatMap_bytes_pieces]

theorem head?_pieces {s : Bytes} {c : UInt8} (h : s.head? = some c) (hc : c.toNat < 0x80) :
    (pieces s).head? = some (.rune [c]) := by
  cases s with
  | nil => cases h
  | cons a rest =>
      cases h
      have hw : runeWidth (c :: rest) = 1 := by simp [runeWidth, leadWidth, tailOk, hc]
      rw [pieces, piecesAfter, hw]
      rfl

theorem getLast?_pieces {s : Bytes} (hs : validString s = true) {c : UInt8}
    (h : s.getLast? = some c) (hc : c.toNat < 0x80) :
    (pieces s).getLast? = some (.rune [c]) := by
  rcases List.eq_nil_or_concat (pieces s) with hnil | ⟨front, p, hp⟩
  · rw [← flatMap_bytes_pieces s, hnil] at h
    cases h
  · obtain ⟨code, rfl, hcode⟩ := exists_rune hs (p := p) (by simp [hp])
    have hlast : code.getLast? = some c := by
      rw [← flatMap_bytes_pieces s, hp] at h
      simpa [Piece.bytes, List.getLast?_append, List.getLast?_eq_some_getLast hcode.1] using h
    rw [hp, List.concat_eq_append, List.getLast?_concat, hcode.eq_singleton hlast hc]

/-- What `TrimSpace` leaves alone has no space character to trim. -/
theorem trim_space_eq_self {s : Bytes} (hs : validString s = true) (h : trimSpace s = s) :
    trim (fun c => c == 32) s = s := by
  rw [trimSpace_eq_self_iff, trim_eq_self_iff] at h
  rw [trim_eq_self_iff]
  constructor
  · intro c hc
    by_contra hspace
    obtain rfl : c = 32 := by simpa using hspace
    have := h.1 _ (head?_pieces hc (by decide))
    cases this
  · intro c hc
    by_contra hspace
    obtain rfl : c = 32 := by simpa using hspace
    have := h.2 _ (getLast?_pieces hs hc (by decide))
    cases this

end Utf8

end CloudHelp
