import CloudHelp.JsonText

/-!
# JSON values and their text

`Json` holds what `encoding/json` writes for structs, slices, strings and integers. A string is
held as the text between its quotes (`JsonText.escape`), so that a value keeps exactly what its
encoding shows. The encoding is uniquely readable: it determines the value, also when more text
follows (`encode_append_inj`).
-/

namespace CloudHelp

/-- `strconv.AppendUint` in base 10. -/
def formatUint (n : ℕ) : Bytes := (Nat.toDigits 10 n).map fun c => UInt8.ofNat c.toNat

def formatInt (n : ℤ) : Bytes :=
  if n < 0 then 45 :: formatUint n.natAbs else formatUint n.natAbs

inductive Json where
  | num (n : ℤ)
  | str (text : Bytes)
  | arr (items : List Json)
  | obj (members : List (Bytes × Json))

namespace Json

mutual

/-- The compact form `json.Marshal` writes. -/
def encode : Json → Bytes
  | .num n => formatInt n
  | .str t => 34 :: (t ++ [34])
  | .arr [] => [91, 93]
  | .arr (v :: vs) => 91 :: (encode v ++ encodeItems vs)
  | .obj [] => [123, 125]
  | .obj (m :: ms) => 123 :: (encodeMember m ++ encodeMembers ms)

def encodeItems : List Json → Bytes
  | [] => [93]
  | v :: vs => 44 :: (encode v ++ encodeItems vs)

def encodeMember : Bytes × Json → Bytes
  | (k, v) => 34 :: (k ++ 34 :: 58 :: encode v)

def encodeMembers : List (Bytes × Json) → Bytes
  | [] => [125]
  | m :: ms => 44 :: (encodeMember m ++ encodeMembers ms)

end

mutual

def wellFormed : Json → Bool
  | .num _ => true
  | .str t => JsonText.stringText t
  | .arr vs => wellFormedItems vs
  | .obj ms => wellFormedMembers ms

def wellFormedItems : List Json → Bool
  | [] => true
  | v :: vs => wellFormed v && wellFormedItems vs

def wellFormedMembers : List (Bytes × Json) → Bool
  | [] => true
  | (k, v) :: ms => JsonText.stringText k && wellFormed v && wellFormedMembers ms

end

end Json

/-! ## Numbers -/

def isDigit (c : UInt8) : Bool := 48 ≤ c.toNat && c.toNat ≤ 57

/-- What may follow a value: nothing, or a byte that is not a digit. -/
def Stops (r : Bytes) : Prop := ∀ c ∈ r.head?, isDigit c = false

theorem stops_nil : Stops [] := by simp [Stops]

theorem stops_cons {c : UInt8} (h : isDigit c = false) (r : Bytes) : Stops (c :: r) := by
  simpa [Stops] using h

theorem toNat_of_isDigit {c : Char} (h : c.isDigit = true) : 48 ≤ c.toNat ∧ c.toNat ≤ 57 := by
  simpa [Char.isDigit, UInt32.le_iff_toNat_le] using h

theorem digit_bounds {n : ℕ} {c : Char} (h : c ∈ Nat.toDigits 10 n) :
    48 ≤ c.toNat ∧ c.toNat ≤ 57 :=
  toNat_of_isDigit (Nat.isDigit_of_mem_toDigits (by decide) le_rfl h)

theorem isDigit_of_mem_formatUint {n : ℕ} {c : UInt8} (h : c ∈ formatUint n) :
    isDigit c = true := by
  obtain ⟨d, hd, rfl⟩ := List.mem_map.mp h
  obtain ⟨h1, h2⟩ := digit_bounds hd
  have hmod : d.toNat % 256 = d.toNat := Nat.mod_eq_of_lt (by omega)
  simp [isDigit, UInt8.toNat_ofNat', hmod, h1, h2]

theorem map_ofNat_formatUint (n : ℕ) :
    (formatUint n).map (fun b => Char.ofNat b.toNat) = Nat.toDigits 10 n := by
  have hback : ∀ c ∈ Nat.toDigits 10 n, Char.ofNat (UInt8.ofNat c.toNat).toNat = c := by
    intro c hc
    have hb := digit_bounds hc
    rw [UInt8.toNat_ofNat', Nat.mod_eq_of_lt (by omega), Char.ofNat_toNat]
  rw [formatUint, List.map_map]
  exact (List.map_congr_left hback).trans (List.map_id _)

theorem formatUint_injective : Function.Injective formatUint := by
  intro n m h
  have hd : Nat.toDigits 10 n = Nat.toDigits 10 m := by
    rw [← map_ofNat_formatUint, h, map_ofNat_formatUint]
  rw [← Nat.ofDigitChars_ten_toDigits (n := n), hd, Nat.ofDigitChars_ten_toDigits]

/-- The digits of a number of 64 bits. -/
theorem length_formatInt_le (v : UInt64) : (formatInt v.toNat).length ≤ 20 := by
  rw [formatInt, if_neg (by omega), formatUint, List.length_map]
  exact Nat.toDigits_length 10 _ 20 (by decide) (by have := v.toNat_lt; omega)

theorem takeWhile_digits {l r : Bytes} (hl : ∀ c ∈ l, isDigit c = true) (hr : Stops r) :
    (l ++ r).takeWhile isDigit = l := by
  rw [List.takeWhile_append_of_pos hl]
  cases r with
  | nil => simp
  | cons c r =>
      have hc : isDigit c = false := hr c (by simp)
      simp [hc]

theorem formatUint_append_inj {n m : ℕ} {r s : Bytes} (hr : Stops r) (hs : Stops s)
    (h : formatUint n ++ r = formatUint m ++ s) : n = m ∧ r = s := by
  have htake := congrArg (List.takeWhile isDigit) h
  rw [takeWhile_digits (fun c hc => isDigit_of_mem_formatUint hc) hr,
    takeWhile_digits (fun c hc => isDigit_of_mem_formatUint hc) hs] at htake
  obtain rfl := formatUint_injective htake
  exact ⟨rfl, List.append_cancel_left h⟩

theorem formatUint_eq_cons (n : ℕ) : ∃ c t, formatUint n = c :: t ∧ isDigit c = true := by
  cases h : formatUint n with
  | nil => exact absurd (List.map_eq_nil_iff.mp h) Nat.toDigits_ne_nil
  | cons c t =>
      exact ⟨c, t, rfl, isDigit_of_mem_formatUint (n := n) (by rw [h]; exact List.mem_cons_self)⟩

theorem formatInt_append_inj {n m : ℤ} {r s : Bytes} (hr : Stops r) (hs : Stops s)
    (h : formatInt n ++ r = formatInt m ++ s) : n = m ∧ r = s := by
  obtain ⟨c, t, hc, hcd⟩ := formatUint_eq_cons n.natAbs
  obtain ⟨d, u, hd, hdd⟩ := formatUint_eq_cons m.natAbs
  unfold formatInt at h
  split_ifs at h with hn hm hm
  · obtain ⟨he, hrs⟩ := formatUint_append_inj hr hs (List.cons.inj h).2
    exact ⟨by omega, hrs⟩
  · -- a minus sign is not a digit
    rw [hd] at h
    obtain ⟨rfl, _⟩ := List.cons.inj h
    exact absurd hdd (by decide)
  · rw [hc] at h
    obtain ⟨rfl, _⟩ := List.cons.inj h
    exact absurd hcd (by decide)
  · obtain ⟨he, hrs⟩ := formatUint_append_inj hr hs h
    exact ⟨by omega, hrs⟩

/-! ## Unique reading -/

namespace Json

def lead : Json → Option UInt8
  | .num _ => none
  | .str _ => some 34
  | .arr _ => some 91
  | .obj _ => some 123

def leadOf (c : UInt8) : Option UInt8 := if isDigit c || c == 45 then none else some c

theorem formatInt_eq_cons (n : ℤ) : ∃ c t, formatInt n = c :: t ∧ leadOf c = none := by
  obtain ⟨c, t, ht, hc⟩ := formatUint_eq_cons n.natAbs
  unfold formatInt
  split_ifs with hn
  · exact ⟨45, _, rfl, rfl⟩
  · exact ⟨c, t, ht, by simp [leadOf, hc]⟩

theorem encode_eq_cons (v : Json) : ∃ c t, encode v = c :: t ∧ leadOf c = v.lead := by
  match v with
  | .num n => exact formatInt_eq_cons n
  | .str t => exact ⟨34, _, rfl, rfl⟩
  | .arr [] => exact ⟨91, _, rfl, rfl⟩
  | .arr (v :: vs) => exact ⟨91, _, rfl, rfl⟩
  | .obj [] => exact ⟨123, _, rfl, rfl⟩
  | .obj (m :: ms) => exact ⟨123, _, rfl, rfl⟩

theorem lead_eq_of_encode {v w : Json} {r s : Bytes} (h : encode v ++ r = encode w ++ s) :
    v.lead = w.lead := by
  obtain ⟨c, t, hv, hc⟩ := encode_eq_cons v
  obtain ⟨d, u, hw, hd⟩ := encode_eq_cons w
  rw [hv, hw] at h
  obtain ⟨rfl, _⟩ := List.cons.inj h
  exact hc.symm.trans hd

/-- No value starts with a closing bracket. -/
theorem encode_append_ne_bracket (v : Json) (r s : Bytes) : encode v ++ r ≠ 93 :: s := by
  obtain ⟨c, t, hv, hc⟩ := encode_eq_cons v
  rw [hv]
  intro h
  obtain ⟨rfl, _⟩ := List.cons.inj h
  cases v <;> revert hc <;> simp [lead] <;> decide

theorem stops_encodeItems (vs : List Json) (r : Bytes) : Stops (encodeItems vs ++ r) := by
  cases vs with
  | nil => exact stops_cons (by decide) _
  | cons v vs => exact stops_cons (by decide) _

theorem stops_encodeMembers (ms : List (Bytes × Json)) (r : Bytes) :
    Stops (encodeMembers ms ++ r) := by
  cases ms with
  | nil => exact stops_cons (by decide) _
  | cons m ms => exact stops_cons (by decide) _

mutual

/-- The encoding determines the value and where it ends. -/
theorem encode_append_inj : ∀ (v w : Json) {r s : Bytes}, v.wellFormed = true →
    w.wellFormed = true → Stops r → Stops s → encode v ++ r = encode w ++ s → v = w ∧ r = s
  | .num n, .num m, r, s, _, _, hr, hs, h => by
      obtain ⟨rfl, hrs⟩ := formatInt_append_inj hr hs h
      exact ⟨rfl, hrs⟩
  | .str t, .str u, r, s, ht, hu, _, _, h => by
      simp only [encode, List.cons_append, List.append_assoc, List.nil_append,
        List.cons.injEq, true_and] at h
      obtain ⟨rfl, hrs⟩ := JsonText.stringText_append_inj ht hu h
      exact ⟨rfl, hrs⟩
  | .arr vs, .arr ws, r, s, hv, hw, _, _, h => by
      match vs, ws, hv, hw, h with
      | [], [], _, _, h =>
          simp only [encode, List.cons_append, List.nil_append, List.cons.injEq, true_and] at h
          exact ⟨rfl, h⟩
      | [], w :: ws, _, _, h =>
          simp only [encode, List.cons_append, List.append_assoc, List.nil_append,
            List.cons.injEq, true_and] at h
          exact absurd h.symm (encode_append_ne_bracket w _ _)
      | v :: vs, [], _, _, h =>
          simp only [encode, List.cons_append, List.append_assoc, List.nil_append,
            List.cons.injEq, true_and] at h
          exact absurd h (encode_append_ne_bracket v _ _)
      | v :: vs, w :: ws, hv, hw, h =>
          simp only [wellFormed, wellFormedItems, Bool.and_eq_true] at hv hw
          simp only [encode, List.cons_append, List.append_assoc, List.cons.injEq, true_and] at h
          obtain ⟨rfl, h'⟩ := encode_append_inj v w hv.1 hw.1 (stops_encodeItems vs r)
            (stops_encodeItems ws s) h
          obtain ⟨rfl, hrs⟩ := encodeItems_append_inj vs ws hv.2 hw.2 h'
          exact ⟨rfl, hrs⟩
  | .obj ms, .obj ns, r, s, hv, hw, _, _, h => by
      match ms, ns, hv, hw, h with
      | [], [], _, _, h =>
          simp only [encode, List.cons_append, List.nil_append, List.cons.injEq, true_and] at h
          exact ⟨rfl, h⟩
      | [], (l, w) :: ns, _, _, h => simp [encode, encodeMember] at h
      | (k, v) :: ms, [], _, _, h => simp [encode, encodeMember] at h
      | (k, v) :: ms, (l, w) :: ns, hv, hw, h =>
          simp only [wellFormed, wellFormedMembers, Bool.and_eq_true] at hv hw
          simp only [encode, encodeMember, List.cons_append, List.append_assoc, List.cons.injEq,
            true_and] at h
          obtain ⟨rfl, h'⟩ := JsonText.stringText_append_inj hv.1.1 hw.1.1 h
          obtain ⟨rfl, h''⟩ := encode_append_inj v w hv.1.2 hw.1.2 (stops_encodeMembers ms r)
            (stops_encodeMembers ns s) (List.cons.inj h').2
          obtain ⟨rfl, hrs⟩ := encodeMembers_append_inj ms ns hv.2 hw.2 h''
          exact ⟨rfl, hrs⟩
  | .num _, .str _, r, s, _, _, _, _, h => absurd (lead_eq_of_encode h) (by simp [lead])
  | .num _, .arr _, r, s, _, _, _, _, h => absurd (lead_eq_of_encode h) (by simp [lead])
  | .num _, .obj _, r, s, _, _, _, _, h => absurd (lead_eq_of_encode h) (by simp [lead])
  | .str _, .num _, r, s, _, _, _, _, h => absurd (lead_eq_of_encode h) (by simp [lead])
  | .str _, .arr _, r, s, _, _, _, _, h => absurd (lead_eq_of_encode h) (by simp [lead])
  | .str _, .obj _, r, s, _, _, _, _, h => absurd (lead_eq_of_encode h) (by simp [lead])
  | .arr _, .num _, r, s, _, _, _, _, h => absurd (lead_eq_of_encode h) (by simp [lead])
  | .arr _, .str _, r, s, _, _, _, _, h => absurd (lead_eq_of_encode h) (by simp [lead])
  | .arr _, .obj _, r, s, _, _, _, _, h => absurd (lead_eq_of_encode h) (by simp [lead])
  | .obj _, .num _, r, s, _, _, _, _, h => absurd (lead_eq_of_encode h) (by simp [lead])
  | .obj _, .str _, r, s, _, _, _, _, h => absurd (lead_eq_of_encode h) (by simp [lead])
  | .obj _, .arr _, r, s, _, _, _, _, h => absurd (lead_eq_of_encode h) (by simp [lead])

theorem encodeItems_append_inj : ∀ (vs ws : List Json) {r s : Bytes},
    wellFormedItems vs = true → wellFormedItems ws = true →
      encodeItems vs ++ r = encodeItems ws ++ s → vs = ws ∧ r = s
  | [], [], r, s, _, _, h => by
      simp only [encodeItems, List.cons_append, List.nil_append, List.cons.injEq, true_and] at h
      exact ⟨rfl, h⟩
  | v :: vs, w :: ws, r, s, hv, hw, h => by
      simp only [wellFormedItems, Bool.and_eq_true] at hv hw
      simp only [encodeItems, List.cons_append, List.append_assoc, List.cons.injEq, true_and] at h
      obtain ⟨rfl, h'⟩ := encode_append_inj v w hv.1 hw.1 (stops_encodeItems vs r)
        (stops_encodeItems ws s) h
      obtain ⟨rfl, hrs⟩ := encodeItems_append_inj vs ws hv.2 hw.2 h'
      exact ⟨rfl, hrs⟩
  | [], w :: ws, r, s, _, _, h => by simp [encodeItems] at h
  | v :: vs, [], r, s, _, _, h => by simp [encodeItems] at h

theorem encodeMembers_append_inj : ∀ (ms ns : List (Bytes × Json)) {r s : Bytes},
    wellFormedMembers ms = true → wellFormedMembers ns = true →
      encodeMembers ms ++ r = encodeMembers ns ++ s → ms = ns ∧ r = s
  | [], [], r, s, _, _, h => by
      simp only [encodeMembers, List.cons_append, List.nil_append, List.cons.injEq, true_and] at h
      exact ⟨rfl, h⟩
  | (k, v) :: ms, (l, w) :: ns, r, s, hv, hw, h => by
      simp only [wellFormedMembers, Bool.and_eq_true] at hv hw
      simp only [encodeMembers, encodeMember, List.cons_append, List.append_assoc,
        List.cons.injEq, true_and] at h
      obtain ⟨rfl, h'⟩ := JsonText.stringText_append_inj hv.1.1 hw.1.1 h
      obtain ⟨rfl, h''⟩ := encode_append_inj v w hv.1.2 hw.1.2 (stops_encodeMembers ms r)
        (stops_encodeMembers ns s) (List.cons.inj h').2
      obtain ⟨rfl, hrs⟩ := encodeMembers_append_inj ms ns hv.2 hw.2 h''
      exact ⟨rfl, hrs⟩
  | [], (l, w) :: ns, r, s, _, _, h => by simp [encodeMembers] at h
  | (k, v) :: ms, [], r, s, _, _, h => by simp [encodeMembers] at h

end

theorem encode_injOn {v w : Json} (hv : v.wellFormed = true) (hw : w.wellFormed = true)
    (h : encode v = encode w) : v = w :=
  (encode_append_inj v w hv hw stops_nil stops_nil (by simpa using h)).1

theorem encode_ne_nil (v : Json) : encode v ≠ [] := by
  obtain ⟨c, t, hv, _⟩ := encode_eq_cons v
  simp [hv]

def ofString (html : Bool) (s : Bytes) : Json := .str (JsonText.escape html s)

theorem wellFormed_ofString (html : Bool) (s : Bytes) : (ofString html s).wellFormed = true := by
  rw [ofString, wellFormed]
  exact JsonText.stringText_escape html s

theorem ofString_injOn {html : Bool} {s t : Bytes} (hs : Utf8.validString s = true)
    (ht : Utf8.validString t = true) (h : ofString html s = ofString html t) : s = t :=
  JsonText.escape_injOn hs ht (Json.str.inj h)

theorem wellFormedItems_map {α : Type*} {f : α → Json} (hf : ∀ a, (f a).wellFormed = true)
    (l : List α) : wellFormedItems (l.map f) = true := by
  induction l with
  | nil => rfl
  | cons a l ih => rw [List.map_cons, wellFormedItems, hf, ih, Bool.true_and]

/-! ## Indentation

`Encoder.SetIndent("", "  ")`: every item and every member on a line of its own, and nothing between
the brackets of an empty array or object. -/

def newline (depth : ℕ) : Bytes := 10 :: List.replicate (2 * depth) 32

mutual

def indent (depth : ℕ) : Json → Bytes
  | .num n => formatInt n
  | .str t => 34 :: (t ++ [34])
  | .arr [] => [91, 93]
  | .arr (v :: vs) => 91 :: (newline (depth + 1) ++ (indent (depth + 1) v ++ indentItems depth vs))
  | .obj [] => [123, 125]
  | .obj (m :: ms) =>
      123 :: (newline (depth + 1) ++ (indentMember (depth + 1) m ++ indentMembers depth ms))

def indentItems (depth : ℕ) : List Json → Bytes
  | [] => newline depth ++ [93]
  | v :: vs => 44 :: (newline (depth + 1) ++ (indent (depth + 1) v ++ indentItems depth vs))

def indentMember (depth : ℕ) : Bytes × Json → Bytes
  | (k, v) => 34 :: (k ++ 34 :: 58 :: 32 :: indent depth v)

def indentMembers (depth : ℕ) : List (Bytes × Json) → Bytes
  | [] => newline depth ++ [125]
  | m :: ms =>
      44 :: (newline (depth + 1) ++ (indentMember (depth + 1) m ++ indentMembers depth ms))

end

def isSpace (c : UInt8) : Bool := c == 32 || c == 9 || c == 13 || c == 10

end Json

end CloudHelp
