import CloudHelp.GoValues

/-!
# Reading a byte string as UTF-8

`runeWidth` follows the tables of `utf8.DecodeRune`: the number of bytes of the well-formed
encoding at the head of a string, zero when there is none. `pieces` is the walk every Go loop over
the runes of a string makes: a well-formed encoding is one piece, and a byte that starts none is
a piece by itself. The pieces of a string, put together, are the string.
-/

namespace CloudHelp.Utf8

def within (low high : ℕ) (b : UInt8) : Bool := low ≤ b.toNat && b.toNat ≤ high

/-- The range of a second byte, narrowed after `E0`, `ED`, `F0` and `F4`. -/
def secondWithin (a b : UInt8) : Bool :=
  within (if a = 0xE0 then 0xA0 else if a = 0xF0 then 0x90 else 0x80)
    (if a = 0xED then 0x9F else if a = 0xF4 then 0x8F else 0xBF) b

/-- The width the first byte announces, zero for a byte that starts nothing. -/
def leadWidth (a : UInt8) : ℕ :=
  if a.toNat < 0x80 then 1
  else if within 0xC2 0xDF a then 2
  else if within 0xE0 0xEF a then 3
  else if within 0xF0 0xF4 a then 4 else 0

def tailOk (a : UInt8) : Bytes → Bool
  | [] => true
  | b :: rest => secondWithin a b && rest.all (within 0x80 0xBF)

def runeWidth : Bytes → ℕ
  | [] => 0
  | a :: rest =>
      if leadWidth a ≤ rest.length + 1 ∧ tailOk a (rest.take (leadWidth a - 1)) then leadWidth a
      else 0

inductive Piece where
  | rune (code : Bytes)
  | bad (byte : UInt8)
  deriving DecidableEq, Repr

namespace Piece

def bytes : Piece → Bytes
  | .rune code => code
  | .bad b => [b]

def isRune : Piece → Bool
  | .rune _ => true
  | .bad _ => false

end Piece

/-- The pieces after `skip` more bytes of a piece already taken. -/
def piecesAfter : ℕ → Bytes → List Piece
  | _, [] => []
  | skip + 1, _ :: rest => piecesAfter skip rest
  | 0, a :: rest =>
      match runeWidth (a :: rest) with
      | 0 => .bad a :: piecesAfter 0 rest
      | width + 1 => .rune ((a :: rest).take (width + 1)) :: piecesAfter width rest

def pieces (s : Bytes) : List Piece := piecesAfter 0 s

def validString (s : Bytes) : Bool := (pieces s).all Piece.isRune

def IsRune (code : Bytes) : Prop := code ≠ [] ∧ runeWidth code = code.length

/-- U+FFFD, which stands for a byte outside of any encoding. -/
def replacement : Bytes := [0xEF, 0xBF, 0xBD]

theorem isRune_replacement : IsRune replacement := ⟨by decide, by decide⟩

theorem runeWidth_eq_succ {a : UInt8} {rest : Bytes} {width : ℕ}
    (h : runeWidth (a :: rest) = width + 1) :
    leadWidth a = width + 1 ∧ width ≤ rest.length ∧ tailOk a (rest.take width) = true := by
  rw [runeWidth] at h
  split_ifs at h with hc
  rw [h] at hc
  exact ⟨h, Nat.le_of_succ_le_succ hc.1, hc.2⟩

theorem runeWidth_of_lead {a : UInt8} {rest : Bytes} {width : ℕ} (hl : leadWidth a = width + 1)
    (hr : width ≤ rest.length) (ht : tailOk a (rest.take width) = true) :
    runeWidth (a :: rest) = width + 1 := by
  rw [runeWidth, if_pos, hl]
  rw [hl]
  exact ⟨Nat.succ_le_succ hr, ht⟩

/-- What follows a complete encoding does not change where it ends. -/
theorem IsRune.runeWidth_append {code : Bytes} (h : IsRune code) (r : Bytes) :
    runeWidth (code ++ r) = code.length := by
  obtain ⟨hne, hw⟩ := h
  cases code with
  | nil => exact absurd rfl hne
  | cons a rest =>
      obtain ⟨hl, hr, ht⟩ := runeWidth_eq_succ hw
      rw [List.cons_append, runeWidth_of_lead hl (by simp)]
      · rfl
      · rwa [List.take_append_of_le_length le_rfl]

theorem isRune_take {a : UInt8} {rest : Bytes} {width : ℕ}
    (h : runeWidth (a :: rest) = width + 1) : IsRune ((a :: rest).take (width + 1)) := by
  obtain ⟨hl, hr, ht⟩ := runeWidth_eq_succ h
  have hlen : (rest.take width).length = width := by rw [List.length_take, min_eq_left hr]
  refine ⟨by simp, ?_⟩
  rw [List.take_succ_cons, runeWidth_of_lead hl hlen.ge (by rwa [List.take_take, min_self])]
  rw [List.length_cons, hlen]

theorem flatMap_bytes_piecesAfter (s : Bytes) (skip : ℕ) :
    (piecesAfter skip s).flatMap Piece.bytes = s.drop skip := by
  induction s generalizing skip with
  | nil => simp [piecesAfter]
  | cons a rest ih =>
      cases skip with
      | succ skip => simp [piecesAfter, ih]
      | zero =>
          rw [piecesAfter]
          split
          · simp [Piece.bytes, ih]
          · next width hw => simp [Piece.bytes, ih]

/-- The pieces of a string, put together, are the string. -/
theorem flatMap_bytes_pieces (s : Bytes) : (pieces s).flatMap Piece.bytes = s :=
  flatMap_bytes_piecesAfter s 0

theorem pieces_injective : Function.Injective pieces := by
  intro s t h
  rw [← flatMap_bytes_pieces s, h, flatMap_bytes_pieces]

theorem isRune_of_mem_piecesAfter (s : Bytes) (skip : ℕ) (code : Bytes)
    (h : .rune code ∈ piecesAfter skip s) : IsRune code := by
  induction s generalizing skip with
  | nil => simp [piecesAfter] at h
  | cons a rest ih =>
      cases skip with
      | succ skip => exact ih skip h
      | zero =>
          rw [piecesAfter] at h
          split at h
          · rcases List.mem_cons.mp h with he | hr
            · cases he
            · exact ih 0 hr
          · next width hw =>
              rcases List.mem_cons.mp h with he | hr
              · cases he
                exact isRune_take hw
              · exact ih width hr

theorem isRune_of_mem_pieces {s code : Bytes} (h : .rune code ∈ pieces s) : IsRune code :=
  isRune_of_mem_piecesAfter s 0 code h

theorem pieces_of_ascii {s : Bytes} (h : ∀ c ∈ s, c.toNat < 128) :
    pieces s = s.map fun c => .rune [c] := by
  unfold pieces
  induction s with
  | nil => rfl
  | cons a rest ih =>
      have ha : a.toNat < 0x80 := h a List.mem_cons_self
      have hr := ih fun c hc => h c (List.mem_cons_of_mem _ hc)
      simp [piecesAfter, runeWidth, leadWidth, tailOk, ha, hr]

theorem validString_of_ascii {s : Bytes} (h : ∀ c ∈ s, c.toNat < 128) : validString s = true := by
  simp [validString, pieces_of_ascii h, Piece.isRune]

end CloudHelp.Utf8
