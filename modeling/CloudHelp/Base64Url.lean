import CloudHelp.GoValues

/-!
# The unpadded URL alphabet of base64

`encodeToString` and `decodeString` are Go's `base64.RawURLEncoding`. Decoding is not strict: line
feeds and carriage returns are skipped wherever they stand, and the bits of the last character
that no byte uses are ignored, so one byte sequence has many spellings. Encoding picks one of
them, and decoding gives back the bytes that were encoded.

Bit groups are written with `Nat` arithmetic. The groups a Go expression joins with `|` never
overlap, so joining them is adding them.
-/

namespace CloudHelp.Base64Url

def encodeChar (n : ℕ) : UInt8 :=
  if n < 26 then UInt8.ofNat (65 + n)
  else if n < 52 then UInt8.ofNat (71 + n)
  else if n < 62 then UInt8.ofNat (n - 4)
  else if n = 62 then 45 else 95

def decodeChar (c : UInt8) : Option ℕ :=
  if 65 ≤ c.toNat ∧ c.toNat ≤ 90 then some (c.toNat - 65)
  else if 97 ≤ c.toNat ∧ c.toNat ≤ 122 then some (c.toNat - 71)
  else if 48 ≤ c.toNat ∧ c.toNat ≤ 57 then some (c.toNat + 4)
  else if c.toNat = 45 then some 62
  else if c.toNat = 95 then some 63 else none

def isNewline (c : UInt8) : Bool := c == 10 || c == 13

/-- The six-bit groups of a byte sequence, the last one filled with zero bits. -/
def sextets : Bytes → List ℕ
  | [] => []
  | [a] => [a.toNat / 4, a.toNat % 4 * 16]
  | [a, b] => [a.toNat / 4, a.toNat % 4 * 16 + b.toNat / 16, b.toNat % 16 * 4]
  | a :: b :: c :: rest =>
      a.toNat / 4 :: (a.toNat % 4 * 16 + b.toNat / 16) ::
        (b.toNat % 16 * 4 + c.toNat / 64) :: c.toNat % 64 :: sextets rest

def encodeToString (s : Bytes) : Bytes := (sextets s).map encodeChar

def encodedLen (n : ℕ) : ℕ := n / 3 * 4 + (n % 3 * 8 + 5) / 6

/-- The bytes of complete and of trailing groups; a single trailing group holds no byte. -/
def assemble : List ℕ → Option Bytes
  | [] => some []
  | [_] => none
  | [p, q] => some [UInt8.ofNat (p * 4 + q / 16)]
  | [p, q, r] => some [UInt8.ofNat (p * 4 + q / 16), UInt8.ofNat (q % 16 * 16 + r / 4)]
  | p :: q :: r :: s :: rest =>
      (assemble rest).map fun t =>
        UInt8.ofNat (p * 4 + q / 16) :: UInt8.ofNat (q % 16 * 16 + r / 4) ::
          UInt8.ofNat (r % 4 * 64 + s) :: t

def readSextets : Bytes → Option (List ℕ)
  | [] => some []
  | c :: rest =>
      if isNewline c then readSextets rest
      else match decodeChar c with
        | none => none
        | some n => (readSextets rest).map (n :: ·)

/-- `DecodeString`; `none` is a `CorruptInputError`. -/
def decodeString (s : Bytes) : Option Bytes := (readSextets s).bind assemble

theorem decodeChar_encodeChar : ∀ n < 64, decodeChar (encodeChar n) = some n := by decide

theorem isNewline_encodeChar : ∀ n < 64, isNewline (encodeChar n) = false := by decide

theorem sextets_lt (s : Bytes) : ∀ n ∈ sextets s, n < 64 := by
  fun_induction sextets s with
  | case1 => simp
  | case2 a =>
      have := a.toNat_lt
      simp only [List.mem_cons, List.not_mem_nil, or_false, forall_eq_or_imp, forall_eq]
      omega
  | case3 a b =>
      have := a.toNat_lt
      have := b.toNat_lt
      simp only [List.mem_cons, List.not_mem_nil, or_false, forall_eq_or_imp, forall_eq]
      omega
  | case4 a b c rest ih =>
      have := a.toNat_lt
      have := b.toNat_lt
      have := c.toNat_lt
      simp only [List.mem_cons, forall_eq_or_imp]
      exact ⟨by omega, by omega, by omega, by omega, ih⟩

theorem length_sextets (s : Bytes) : (sextets s).length = encodedLen s.length := by
  fun_induction sextets s with
  | case1 => rfl
  | case2 => simp [encodedLen]
  | case3 => simp [encodedLen]
  | case4 a b c rest ih =>
      simp only [List.length_cons, ih, encodedLen]
      omega

theorem length_encodeToString (s : Bytes) : (encodeToString s).length = encodedLen s.length := by
  rw [encodeToString, List.length_map, length_sextets]

theorem readSextets_map_encodeChar {l : List ℕ} (hl : ∀ n ∈ l, n < 64) :
    readSextets (l.map encodeChar) = some l := by
  induction l with
  | nil => rfl
  | cons n l ih =>
      have hn : n < 64 := hl n List.mem_cons_self
      have ht := ih fun m hm => hl m (List.mem_cons_of_mem _ hm)
      simp [readSextets, isNewline_encodeChar n hn, decodeChar_encodeChar n hn, ht]

/-- A byte is rebuilt from the two groups it was split into. -/
theorem ofNat_toNat_eq {a : UInt8} {n : ℕ} (h : n = a.toNat) : UInt8.ofNat n = a := by
  rw [h, UInt8.ofNat_toNat]

theorem assemble_sextets (s : Bytes) : assemble (sextets s) = some s := by
  fun_induction sextets s with
  | case1 => rfl
  | case2 a =>
      simp only [assemble]
      rw [ofNat_toNat_eq (a := a) (by omega)]
  | case3 a b =>
      have := b.toNat_lt
      simp only [assemble]
      rw [ofNat_toNat_eq (a := a) (by omega), ofNat_toNat_eq (a := b) (by omega)]
  | case4 a b c rest ih =>
      have := b.toNat_lt
      have := c.toNat_lt
      simp only [assemble, ih, Option.map_some]
      rw [ofNat_toNat_eq (a := a) (by omega), ofNat_toNat_eq (a := b) (by omega),
        ofNat_toNat_eq (a := c) (by omega)]

theorem decodeString_encodeToString (s : Bytes) : decodeString (encodeToString s) = some s := by
  rw [decodeString, encodeToString, readSextets_map_encodeChar (sextets_lt s)]
  exact assemble_sextets s

theorem encodeToString_injective : Function.Injective encodeToString := by
  intro s t h
  have hs := decodeString_encodeToString s
  rw [h, decodeString_encodeToString] at hs
  exact (Option.some.inj hs).symm

@[simp] theorem encodeToString_inj {s t : Bytes} : encodeToString s = encodeToString t ↔ s = t :=
  encodeToString_injective.eq_iff

def InAlphabet (c : UInt8) : Prop := (decodeChar c).isSome

instance : DecidablePred InAlphabet := fun c =>
  inferInstanceAs (Decidable ((decodeChar c).isSome = true))

theorem inAlphabet_toNat_lt {c : UInt8} (h : InAlphabet c) : c.toNat < 128 := by
  unfold InAlphabet decodeChar at h
  split_ifs at h <;> simp_all <;> omega

theorem readSextets_chars {s : Bytes} {l : List ℕ} (h : readSextets s = some l) :
    ∀ c ∈ s, isNewline c = true ∨ InAlphabet c := by
  induction s generalizing l with
  | nil => simp
  | cons c rest ih =>
      rw [readSextets] at h
      intro d hd
      by_cases hc : isNewline c = true
      · rw [if_pos hc] at h
        rcases List.mem_cons.mp hd with rfl | hr
        · exact Or.inl hc
        · exact ih h d hr
      · rw [if_neg hc] at h
        cases hn : decodeChar c with
        | none => simp [hn] at h
        | some n =>
            simp only [hn, Option.map_eq_some_iff] at h
            obtain ⟨l', hl', _⟩ := h
            rcases List.mem_cons.mp hd with rfl | hr
            · exact Or.inr (by simp [InAlphabet, hn])
            · exact ih hl' d hr

/-- Whatever decodes is ASCII. -/
theorem toNat_lt_of_decodeString {s t : Bytes} (h : decodeString s = some t) :
    ∀ c ∈ s, c.toNat < 128 := by
  intro c hc
  obtain ⟨l, hl, _⟩ := Option.bind_eq_some_iff.mp h
  rcases readSextets_chars hl c hc with hn | ha
  · simp only [isNewline, Bool.or_eq_true, beq_iff_eq] at hn
    rcases hn with rfl | rfl <;> decide
  · exact inAlphabet_toNat_lt ha

end CloudHelp.Base64Url
