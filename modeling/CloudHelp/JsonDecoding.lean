import CloudHelp.JsonLayout

/-!
# Decoding JSON into variables

`Decode` of `encoding/json`, with `DisallowUnknownFields`, for numbers, strings, slices and
structs. A member may come twice; the variable it names is then filled again, from what is already
there. So a `Decoder` says which values a variable takes, and what it holds after it was filled
with one value after the other. For a struct that is the story of each of its fields, and for a
slice that of each element, the elements behind its end included.

`Decoder.Inverts` is what the encoder and the decoder owe each other; it is built up along the
types.
-/

namespace CloudHelp

/-! ## Numbers -/

def digitsValue (l : Bytes) : ℕ := l.foldl (fun n c => 10 * n + (c.toNat - 48)) 0

/-- `strconv.ParseUint` in base 10, for a type with so many bits. -/
def parseUint (bits : ℕ) (l : Bytes) : Option ℕ :=
  if l ≠ [] ∧ l.all isDigit = true ∧ digitsValue l < 2 ^ bits then some (digitsValue l) else none

/-- `strconv.ParseInt` in base 10 and 64 bits, for the literal of a number. -/
def parseInt : Bytes → Option ℤ
  | 45 :: l =>
      if l ≠ [] ∧ l.all isDigit = true ∧ digitsValue l ≤ 2 ^ 63 then some (-digitsValue l) else none
  | l => (parseUint 63 l).map Int.ofNat

theorem digitsValue_concat (l : Bytes) (c : UInt8) :
    digitsValue (l ++ [c]) = 10 * digitsValue l + (c.toNat - 48) := by
  simp [digitsValue]

theorem digitsValue_formatUint (n : ℕ) : digitsValue (formatUint n) = n := by
  induction n using Nat.strong_induction_on with
  | h n ih =>
      have hdigit : ∀ d < 10, (UInt8.ofNat (48 + d)).toNat - 48 = d := by decide
      rw [formatUint_eq]
      split_ifs with hn
      · exact (Nat.zero_add _).trans (hdigit n hn)
      · rw [digitsValue_concat, ih _ (by omega), hdigit _ (Nat.mod_lt n (by decide))]
        omega

theorem parseUint_formatUint {bits n : ℕ} (h : n < 2 ^ bits) :
    parseUint bits (formatUint n) = some n := by
  obtain ⟨c, t, ht, -⟩ := formatUint_eq_cons n
  have hne : formatUint n ≠ [] := by
    rw [ht]
    exact List.cons_ne_nil _ _
  have hdigits : (formatUint n).all isDigit = true :=
    List.all_eq_true.mpr fun c hc => isDigit_of_mem_formatUint hc
  rw [parseUint, digitsValue_formatUint, if_pos ⟨hne, hdigits, h⟩]

theorem parseInt_formatInt {n : ℤ} (h : -2 ^ 63 ≤ n ∧ n < 2 ^ 63) :
    parseInt (formatInt n) = some n := by
  obtain ⟨c, t, ht, hc⟩ := formatUint_eq_cons n.natAbs
  have hne : formatUint n.natAbs ≠ [] := by
    rw [ht]
    exact List.cons_ne_nil _ _
  unfold formatInt
  split_ifs with hn
  · have hdigits : (formatUint n.natAbs).all isDigit = true :=
      List.all_eq_true.mpr fun c hc => isDigit_of_mem_formatUint hc
    rw [parseInt, digitsValue_formatUint, if_pos ⟨hne, hdigits, by omega⟩]
    exact congrArg some (by omega)
  · have hparse : parseUint 63 (formatUint n.natAbs) = some n.natAbs :=
      parseUint_formatUint (by omega)
    have hminus : c ≠ 45 := by
      rintro rfl
      cases hc
    rw [ht] at hparse ⊢
    rw [parseInt, hparse, Option.map_some, Int.ofNat_eq_natCast,
      Int.natAbs_of_nonneg (by omega)]
    intro l hl
    exact hminus (List.cons.inj hl).1

/-! ## Names -/

/-- Letters in either case are the same, and so are the Kelvin sign and `k`, the long s and `s`.
Other letters never match a name of the program. -/
def foldName : Bytes → Bytes
  | [] => []
  | 0xE2 :: 0x84 :: 0xAA :: r => 107 :: foldName r
  | 0xC5 :: 0xBF :: r => 115 :: foldName r
  | c :: r => (if 65 ≤ c ∧ c ≤ 90 then c + 32 else c) :: foldName r

def fieldName (text : Bytes) : Bytes := foldName (JsonText.unquote text)

/-- A name as the program's structs have them: it needs no escapes and is in lower case. -/
def IsName (name : Bytes) : Prop := JsonText.IsText name ∧ fieldName name = name

instance (name : Bytes) : Decidable (IsName name) :=
  inferInstanceAs (Decidable (JsonText.Scan.run .plain name = some .plain ∧ _))

/-! ## Decoders -/

structure Decoder (α : Type) where
  /-- the value does not make `Decode` fail -/
  accepts : JsonValue → Bool
  /-- what the variable holds after it was filled with these values -/
  value : List JsonValue → α

namespace Decoder

variable {α β : Type}

/-- A variable that is set as a whole; `null` leaves it alone. -/
def scalar (read : JsonValue → Option α) (zero : α) : Decoder α where
  accepts
    | .null => true
    | v => (read v).isSome
  value vs := (vs.filterMap read).getLast?.getD zero

def text : Decoder Bytes :=
  scalar (fun | .str t => some (JsonText.unquote t) | _ => none) []

def uint (bits : ℕ) : Decoder ℕ :=
  scalar (fun | .num l => parseUint bits l | _ => none) 0

def int : Decoder ℤ := scalar (fun | .num l => parseInt l | _ => none) 0

def map (f : α → β) (D : Decoder α) : Decoder β := ⟨D.accepts, fun vs => f (D.value vs)⟩

def uint64 : Decoder UInt64 := (uint 64).map UInt64.ofNat

def uint32 : Decoder UInt32 := (uint 32).map UInt32.ofNat

def uint16 : Decoder UInt16 := (uint 16).map UInt16.ofNat

/-- The elements of a slice with the values each was filled with, after one more array. -/
def addColumns : List (List JsonValue) → List JsonValue → List (List JsonValue)
  | columns, [] => columns
  | [], v :: vs => [v] :: addColumns [] vs
  | column :: columns, v :: vs => (column ++ [v]) :: addColumns columns vs

/-- The backing array of a slice and the length of the slice. An empty array and `null` give the
slice a new backing array; a shorter array leaves the old elements behind its end. -/
def fillSlice : List (List JsonValue) × ℕ → JsonValue → List (List JsonValue) × ℕ
  | slice, .arr (v :: vs) => (addColumns slice.1 (v :: vs), vs.length + 1)
  | _, _ => ([], 0)

def list (D : Decoder α) : Decoder (List α) where
  accepts
    | .null => true
    | .arr vs => vs.all D.accepts
    | _ => false
  value vs :=
    let slice := vs.foldl fillSlice ([], 0)
    (slice.1.take slice.2).map D.value

/-- `Decode` into a variable with its zero value, and the input after the value. The text of an
error is left open. -/
def decode (D : Decoder α) (refusal : Bytes → Error) (s : Bytes) : Except Error (α × Bytes) :=
  match JsonValue.read s with
  | none => .error (refusal s)
  | some (v, r) => if D.accepts v then .ok (D.value [v], r) else .error (refusal s)

end Decoder

/-- The fields of a struct. What is built from the values of the members only looks at the fields'
own. -/
structure Fields (α : Type) where
  table : List (Bytes × (JsonValue → Bool))
  build : (Bytes → List JsonValue) → α
  build_congr : ∀ f g, (∀ field ∈ table, f field.1 = g field.1) → build f = build g
  names : ∀ field ∈ table, IsName field.1

namespace Fields

variable {α β : Type}

def start (a : α) : Fields α where
  table := []
  build _ := a
  build_congr _ _ _ := rfl
  names field h := by cases h

def Fresh (F : Fields α) (name : Bytes) : Prop :=
  IsName name ∧ ∀ field ∈ F.table, field.1 ≠ name

instance (F : Fields α) (name : Bytes) : Decidable (F.Fresh name) :=
  inferInstanceAs (Decidable (_ ∧ _))

def field (F : Fields (α → β)) (name : Bytes) (D : Decoder α) (hname : F.Fresh name) :
    Fields β where
  table := (name, D.accepts) :: F.table
  build filled := F.build filled (D.value (filled name))
  build_congr f g h := by
    rw [F.build_congr f g fun field hfield => h field (List.mem_cons_of_mem _ hfield),
      h (name, D.accepts) List.mem_cons_self]
  names field h := by
    obtain rfl | h := List.mem_cons.mp h
    · exact hname.1
    · exact F.names field h

def valuesOf (ms : List (Bytes × JsonValue)) (name : Bytes) : List JsonValue :=
  (ms.filter fun m => fieldName m.1 = name).map Prod.snd

/-- The values a field was filled with, from all the objects its struct was filled with. -/
def filled (vs : List JsonValue) (name : Bytes) : List JsonValue :=
  vs.flatMap fun
    | .obj ms => valuesOf ms name
    | _ => []

/-- A struct; `null` leaves it alone, and so does an empty object. -/
def decoder (F : Fields α) : Decoder α where
  accepts
    | .null => true
    | .obj ms => ms.all fun m => (F.table.lookup (fieldName m.1)).any fun accepts => accepts m.2
    | _ => false
  value vs := F.build (filled vs)

end Fields

/-! ## Reading back -/

namespace Decoder

variable {α β : Type}

structure Takes (D : Decoder α) (v : Json) (a : α) : Prop where
  texts : v.Texts
  accepts : D.accepts v.toValue = true
  value : D.value [v.toValue] = a

def Inverts (D : Decoder α) (toJson : α → Json) (P : α → Prop) : Prop :=
  ∀ a, P a → D.Takes (toJson a) a

theorem decode_of_takes {D : Decoder α} {v : Json} {a : α} (h : D.Takes v a)
    {refusal : Bytes → Error} {s r : Bytes} (hread : JsonValue.read s = some (v.toValue, r)) :
    D.decode refusal s = .ok (a, r) := by
  simp only [decode, hread, h.accepts, h.value, if_true]

theorem Takes.map {D : Decoder α} {v : Json} {a : α} (h : D.Takes v a) (f : α → β) :
    (D.map f).Takes v (f a) :=
  ⟨h.texts, h.accepts, congrArg f h.value⟩

theorem Inverts.map {D : Decoder α} {toJson : α → Json} {P : α → Prop} (h : D.Inverts toJson P)
    {f : α → β} {g : β → α} (hfg : ∀ b, f (g b) = b) :
    (D.map f).Inverts (fun b => toJson (g b)) fun b => P (g b) := by
  intro b hb
  have htakes := (h (g b) hb).map f
  rwa [hfg] at htakes

theorem takes_scalar {read : JsonValue → Option α} {zero a : α} {v : Json} (htexts : v.Texts)
    (h : read v.toValue = some a) : (scalar read zero).Takes v a where
  texts := htexts
  accepts := by
    generalize v.toValue = value at h
    cases value <;> simp [scalar, h]
  value := by simp [scalar, h]

theorem text_inverts (html : Bool) :
    text.Inverts (Json.ofString html) fun s => Utf8.validString s = true := by
  intro s hs
  exact takes_scalar (JsonText.isText_escape html s)
    (congrArg some (JsonText.unquote_escape html hs))

theorem uint_inverts (bits : ℕ) : (uint bits).Inverts (fun n => .num n) fun n => n < 2 ^ bits := by
  intro n hn
  have hread : parseUint bits (formatInt n) = some n := by
    rw [formatInt, if_neg (by omega), Int.natAbs_natCast]
    exact parseUint_formatUint hn
  exact takes_scalar trivial hread

theorem int_inverts : int.Inverts .num fun n => -2 ^ 63 ≤ n ∧ n < 2 ^ 63 := by
  intro n hn
  exact takes_scalar trivial (parseInt_formatInt hn)

theorem uint64_inverts : uint64.Inverts (fun n => .num n.toNat) fun _ => True := by
  intro n _
  exact (uint_inverts 64).map (fun b => UInt64.ofNat_toNat) n n.toNat_lt

theorem uint32_inverts : uint32.Inverts (fun n => .num n.toNat) fun _ => True := by
  intro n _
  exact (uint_inverts 32).map (fun b => UInt32.ofNat_toNat) n n.toNat_lt

theorem uint16_inverts : uint16.Inverts (fun n => .num n.toNat) fun _ => True := by
  intro n _
  exact (uint_inverts 16).map (fun b => UInt16.ofNat_toNat) n n.toNat_lt

theorem addColumns_nil (vs : List JsonValue) : addColumns [] vs = vs.map fun v => [v] := by
  induction vs with
  | nil => rfl
  | cons v vs ih => rw [addColumns, ih, List.map_cons]

theorem value_list (D : Decoder α) (vs : List JsonValue) :
    D.list.value [.arr vs] = vs.map fun v => D.value [v] := by
  cases vs with
  | nil => rfl
  | cons v vs =>
      change ((addColumns [] (v :: vs)).take (vs.length + 1)).map D.value = _
      rw [addColumns_nil, List.take_of_length_le (by simp), List.map_map]
      rfl

theorem itemValues_map {γ : Type} (f : γ → Json) (l : List γ) :
    Json.itemValues (l.map f) = l.map fun a => (f a).toValue := by
  induction l with
  | nil => rfl
  | cons a l ih => rw [List.map_cons, Json.itemValues, ih, List.map_cons]

theorem itemTexts_map {γ : Type} {f : γ → Json} {l : List γ} (h : ∀ a ∈ l, (f a).Texts) :
    Json.ItemTexts (l.map f) := by
  induction l with
  | nil => trivial
  | cons a l ih =>
      exact ⟨h a List.mem_cons_self, ih fun b hb => h b (List.mem_cons_of_mem _ hb)⟩

theorem Inverts.list {D : Decoder α} {toJson : α → Json} {P : α → Prop} (h : D.Inverts toJson P) :
    D.list.Inverts (fun l => .arr (l.map toJson)) fun l => ∀ a ∈ l, P a := by
  intro l hl
  constructor
  · exact itemTexts_map fun a ha => (h a (hl a ha)).texts
  · change (Json.itemValues (l.map toJson)).all D.accepts = true
    rw [itemValues_map, List.all_map, List.all_eq_true]
    exact fun a ha => (h a (hl a ha)).accepts
  · change D.list.value [.arr (Json.itemValues (l.map toJson))] = l
    rw [value_list, itemValues_map, List.map_map]
    conv_rhs => rw [← List.map_id l]
    exact List.map_congr_left fun a ha => (h a (hl a ha)).value

end Decoder

namespace Fields

variable {α β : Type}

theorem memberValues_append (ms ns : List (Bytes × Json)) :
    Json.memberValues (ms ++ ns) = Json.memberValues ms ++ Json.memberValues ns := by
  induction ms with
  | nil => rfl
  | cons m ms ih =>
      rw [List.cons_append, Json.memberValues, ih, Json.memberValues, List.cons_append]

theorem memberTexts_append {ms ns : List (Bytes × Json)} (hm : Json.MemberTexts ms)
    (hn : Json.MemberTexts ns) : Json.MemberTexts (ms ++ ns) := by
  induction ms with
  | nil => exact hn
  | cons m ms ih => exact ⟨hm.1, hm.2.1, ih hm.2.2⟩

/-- The members, each once and for a field of its own, give the value. -/
structure Filled (F : Fields α) (ms : List (Bytes × Json)) (a : α) : Prop where
  texts : Json.MemberTexts ms
  accepted : ∀ m ∈ Json.memberValues ms,
    ∃ accepts, F.table.lookup m.1 = some accepts ∧ accepts m.2 = true
  built : F.build (valuesOf (Json.memberValues ms)) = a

theorem Filled.mem {F : Fields α} {ms : List (Bytes × Json)} {a : α} (h : F.Filled ms a)
    {m : Bytes × JsonValue} (hm : m ∈ Json.memberValues ms) :
    ∃ field ∈ F.table, field.1 = m.1 := by
  obtain ⟨accepts, hlookup, -⟩ := h.accepted m hm
  obtain ⟨l₁, l₂, htable, -⟩ := List.lookup_eq_some_iff.mp hlookup
  exact ⟨(m.1, accepts), by simp [htable], rfl⟩

theorem filled_start (a : α) : (start a).Filled [] a where
  texts := trivial
  accepted m hm := by cases hm
  built := rfl

theorem valuesOf_append (ms ns : List (Bytes × JsonValue)) (name : Bytes) :
    valuesOf (ms ++ ns) name = valuesOf ms name ++ valuesOf ns name := by
  rw [valuesOf, List.filter_append, List.map_append]
  rfl

/-- No member for the field is among the members of the fields before it. -/
theorem Filled.valuesOf_new {F : Fields α} {ms : List (Bytes × Json)} {a : α}
    (h : F.Filled ms a) {name : Bytes} (hname : F.Fresh name) :
    valuesOf (Json.memberValues ms) name = [] := by
  rw [valuesOf, List.map_eq_nil_iff, List.filter_eq_nil_iff]
  intro m hm
  obtain ⟨field, hfield, heq⟩ := h.mem hm
  rw [decide_eq_true_eq, ← heq, (F.names field hfield).2]
  exact hname.2 field hfield

theorem lookup_field {F : Fields (α → β)} {name : Bytes} {D : Decoder α} {hname : F.Fresh name}
    {key : Bytes} (hkey : key ≠ name) :
    (F.field name D hname).table.lookup key = F.table.lookup key := by
  have hbeq : (key == name) = false := by simpa using hkey
  simp only [field, List.lookup_cons, hbeq]

/-- A field whose member was left out. -/
theorem Filled.skip {F : Fields (α → β)} {ms : List (Bytes × Json)} {f : α → β}
    (h : F.Filled ms f) {name : Bytes} {D : Decoder α} {hname : F.Fresh name} :
    (F.field name D hname).Filled ms (f (D.value [])) where
  texts := h.texts
  accepted m hm := by
    obtain ⟨field, hfield, heq⟩ := h.mem hm
    rw [lookup_field (heq ▸ hname.2 field hfield)]
    exact h.accepted m hm
  built := by
    change F.build (valuesOf _) (D.value (valuesOf _ name)) = _
    rw [h.built, h.valuesOf_new hname]

/-- A field with its member. -/
theorem Filled.field {F : Fields (α → β)} {ms : List (Bytes × Json)} {f : α → β}
    (h : F.Filled ms f) {name : Bytes} {D : Decoder α} {hname : F.Fresh name} {v : Json} {a : α}
    (hv : D.Takes v a) :
    (F.field name D hname).Filled (ms ++ [(name, v)]) (f a) where
  texts := memberTexts_append h.texts ⟨hname.1.1, hv.texts, trivial⟩
  accepted m hm := by
    rw [memberValues_append] at hm
    obtain hm | hm := List.mem_append.mp hm
    · have hskip : (F.field name D hname).Filled ms (f (D.value [])) := h.skip
      exact hskip.accepted m hm
    · obtain rfl := List.mem_singleton.mp hm
      exact ⟨D.accepts, List.lookup_cons_self, hv.accepts⟩
  built := by
    have hown : valuesOf [(name, v.toValue)] name = [v.toValue] := by simp [valuesOf, hname.1.2]
    have hothers : ∀ field ∈ F.table,
        valuesOf (Json.memberValues ms ++ [(name, v.toValue)]) field.1 =
          valuesOf (Json.memberValues ms) field.1 := by
      intro field hfield
      have hother : valuesOf [(name, v.toValue)] field.1 = [] := by
        simp [valuesOf, hname.1.2, (hname.2 field hfield).symm]
      rw [valuesOf_append, hother, List.append_nil]
    rw [memberValues_append]
    change F.build (valuesOf (_ ++ [(name, v.toValue)]))
      (D.value (valuesOf (_ ++ [(name, v.toValue)]) name)) = f a
    rw [F.build_congr _ _ hothers, h.built, valuesOf_append, h.valuesOf_new hname, hown,
      List.nil_append, hv.value]

theorem Filled.takes {F : Fields α} {ms : List (Bytes × Json)} {a : α} (h : F.Filled ms a) :
    F.decoder.Takes (.obj ms) a where
  texts := h.texts
  accepts := by
    change (Json.memberValues ms).all _ = true
    rw [List.all_eq_true]
    intro m hm
    obtain ⟨accepts, hlookup, haccepts⟩ := h.accepted m hm
    obtain ⟨field, hfield, heq⟩ := h.mem hm
    rw [← heq, (F.names field hfield).2, heq, hlookup]
    exact haccepts
  value := by
    change F.build (filled [.obj (Json.memberValues ms)]) = a
    rw [← h.built]
    apply F.build_congr
    intro field _
    exact List.append_nil _

end Fields

/-! ## What a variable can hold -/

namespace Decoder

variable {α β : Type}

def Always (D : Decoder α) (P : α → Prop) : Prop := ∀ vs, P (D.value vs)

theorem always_scalar {read : JsonValue → Option α} {zero : α} {P : α → Prop}
    (hread : ∀ v a, read v = some a → P a) (hzero : P zero) : (scalar read zero).Always P := by
  intro vs
  change P ((vs.filterMap read).getLast?.getD zero)
  cases hlast : (vs.filterMap read).getLast? with
  | none => exact hzero
  | some a =>
      obtain ⟨v, -, hv⟩ := List.mem_filterMap.mp (List.mem_of_getLast? hlast)
      exact hread v a hv

theorem always_text : text.Always fun s => Utf8.validString s = true := by
  refine always_scalar (P := fun s => Utf8.validString s = true) ?_ rfl
  intro v s h
  cases v with
  | str t =>
      obtain rfl := Option.some.inj h
      exact JsonText.validString_unquote t
  | null | bool _ | num _ | arr _ | obj _ => cases h

theorem Always.list {D : Decoder α} {P : α → Prop} (h : D.Always P) :
    D.list.Always fun l => ∀ a ∈ l, P a := by
  intro vs a ha
  obtain ⟨column, -, rfl⟩ := List.mem_map.mp ha
  exact h column

end Decoder

end CloudHelp
