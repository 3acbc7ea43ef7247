import CloudHelp.JsonReading

/-!
# Reading back what was written

A `Layout` says which white space the encoder puts between the tokens: none for `json.Marshal`,
line breaks and indentation after `SetIndent`. Whatever the layout, the text of a value is read
back as that value (`reads_write`), so `Json.encode` and `Json.indent` are two cases of one
statement.
-/

namespace CloudHelp

mutual

def Json.toValue : Json → JsonValue
  | .num n => .num (formatInt n)
  | .str t => .str t
  | .arr vs => .arr (Json.itemValues vs)
  | .obj ms => .obj (Json.memberValues ms)

def Json.itemValues : List Json → List JsonValue
  | [] => []
  | v :: vs => Json.toValue v :: Json.itemValues vs

def Json.memberValues : List (Bytes × Json) → List (Bytes × JsonValue)
  | [] => []
  | (k, v) :: ms => (k, Json.toValue v) :: Json.memberValues ms

end

mutual

/-- Every string and every name is a text that the scanner takes to its closing quote. -/
def Json.Texts : Json → Prop
  | .num _ => True
  | .str t => JsonText.IsText t
  | .arr vs => Json.ItemTexts vs
  | .obj ms => Json.MemberTexts ms

def Json.ItemTexts : List Json → Prop
  | [] => True
  | v :: vs => Json.Texts v ∧ Json.ItemTexts vs

def Json.MemberTexts : List (Bytes × Json) → Prop
  | [] => True
  | (k, v) :: ms => JsonText.IsText k ∧ Json.Texts v ∧ Json.MemberTexts ms

end

/-- The white space before an item or a member at a depth, and after a colon. -/
structure Layout where
  line : ℕ → Bytes
  gap : Bytes
  line_space : ∀ depth, ∀ c ∈ line depth, Json.isSpace c = true
  gap_space : ∀ c ∈ gap, Json.isSpace c = true

namespace Layout

def marshal : Layout where
  line _ := []
  gap := []
  line_space _ c hc := by cases hc
  gap_space c hc := by cases hc

/-- The layout of `SetIndent("", "  ")`. -/
def indented : Layout where
  line := Json.newline
  gap := [32]
  line_space depth c hc := by
    obtain rfl | hc := List.mem_cons.mp hc
    · rfl
    · rw [List.eq_of_mem_replicate hc]
      rfl
  gap_space c hc := by
    obtain rfl := List.mem_singleton.mp hc
    rfl

variable (L : Layout)

mutual

def write (depth : ℕ) : Json → Bytes
  | .num n => formatInt n
  | .str t => 34 :: (t ++ [34])
  | .arr [] => [91, 93]
  | .arr (v :: vs) => 91 :: (L.line (depth + 1) ++ (write (depth + 1) v ++ writeItems depth vs))
  | .obj [] => [123, 125]
  | .obj (m :: ms) =>
      123 :: (L.line (depth + 1) ++ (writeMember (depth + 1) m ++ writeMembers depth ms))

def writeItems (depth : ℕ) : List Json → Bytes
  | [] => L.line depth ++ [93]
  | v :: vs => 44 :: (L.line (depth + 1) ++ (write (depth + 1) v ++ writeItems depth vs))

def writeMember (depth : ℕ) : Bytes × Json → Bytes
  | (k, v) => 34 :: (k ++ 34 :: 58 :: (L.gap ++ write depth v))

def writeMembers (depth : ℕ) : List (Bytes × Json) → Bytes
  | [] => L.line depth ++ [125]
  | m :: ms => 44 :: (L.line (depth + 1) ++ (writeMember (depth + 1) m ++ writeMembers depth ms))

end

/-! ## The two layouts of the encoder -/

mutual

theorem write_marshal : ∀ (v : Json) (depth : ℕ), marshal.write depth v = v.encode
  | .num n, depth => rfl
  | .str t, depth => rfl
  | .arr [], depth => rfl
  | .arr (v :: vs), depth => by
      rw [write, write_marshal v, writeItems_marshal vs, Json.encode]
      rfl
  | .obj [], depth => rfl
  | .obj ((k, v) :: ms), depth => by
      rw [write, writeMember, write_marshal v, writeMembers_marshal ms, Json.encode,
        Json.encodeMember]
      rfl
  termination_by structural v => v

theorem writeItems_marshal : ∀ (vs : List Json) (depth : ℕ),
    marshal.writeItems depth vs = Json.encodeItems vs
  | [], depth => rfl
  | v :: vs, depth => by
      rw [writeItems, write_marshal v, writeItems_marshal vs, Json.encodeItems]
      rfl
  termination_by structural vs => vs

theorem writeMembers_marshal : ∀ (ms : List (Bytes × Json)) (depth : ℕ),
    marshal.writeMembers depth ms = Json.encodeMembers ms
  | [], depth => rfl
  | (k, v) :: ms, depth => by
      rw [writeMembers, writeMember, write_marshal v, writeMembers_marshal ms, Json.encodeMembers,
        Json.encodeMember]
      rfl
  termination_by structural ms => ms

end

mutual

theorem write_indented : ∀ (v : Json) (depth : ℕ), indented.write depth v = v.indent depth
  | .num n, depth => rfl
  | .str t, depth => rfl
  | .arr [], depth => rfl
  | .arr (v :: vs), depth => by
      rw [write, write_indented v, writeItems_indented vs, Json.indent]
      rfl
  | .obj [], depth => rfl
  | .obj ((k, v) :: ms), depth => by
      rw [write, writeMember, write_indented v, writeMembers_indented ms, Json.indent,
        Json.indentMember]
      rfl
  termination_by structural v => v

theorem writeItems_indented : ∀ (vs : List Json) (depth : ℕ),
    indented.writeItems depth vs = Json.indentItems depth vs
  | [], depth => rfl
  | v :: vs, depth => by
      rw [writeItems, write_indented v, writeItems_indented vs, Json.indentItems]
      rfl
  termination_by structural vs => vs

theorem writeMembers_indented : ∀ (ms : List (Bytes × Json)) (depth : ℕ),
    indented.writeMembers depth ms = Json.indentMembers depth ms
  | [], depth => rfl
  | (k, v) :: ms, depth => by
      rw [writeMembers, writeMember, write_indented v, writeMembers_indented ms, Json.indentMembers,
        Json.indentMember]
      rfl
  termination_by structural ms => ms

end

end Layout

/-! ## Reading -/

namespace JsonValue

open Json (isSpace)

theorem skipSpace_append {l : Bytes} (hl : ∀ c ∈ l, isSpace c = true) (s : Bytes) :
    skipSpace (l ++ s) = skipSpace s := by
  unfold skipSpace
  induction l with
  | nil => rfl
  | cons c l ih =>
      rw [List.cons_append, List.dropWhile_cons_of_pos (hl c List.mem_cons_self),
        ih fun d hd => hl d (List.mem_cons_of_mem _ hd)]

theorem skipSpace_cons {c : UInt8} (hc : isSpace c = false) (s : Bytes) :
    skipSpace (c :: s) = c :: s :=
  List.dropWhile_cons_of_neg (by simp [hc])

theorem begins_cons {c : UInt8} (hc : isSpace c = false) (s : Bytes) : Begins c (c :: s) s :=
  skipSpace_cons hc s

theorem Begins.space {c : UInt8} {s r l : Bytes} (h : Begins c s r)
    (hl : ∀ c ∈ l, isSpace c = true) : Begins c (l ++ s) r :=
  (skipSpace_append hl s).trans h

theorem ReadsName.space {s name r l : Bytes} (h : ReadsName s name r)
    (hl : ∀ c ∈ l, isSpace c = true) : ReadsName (l ++ s) name r := by
  obtain ⟨s', hquote, htext, hcolon⟩ := h
  exact ⟨s', hquote.space hl, htext, hcolon⟩

/-- White space before a value is skipped. -/
theorem Reads.space {s r l : Bytes} {v : JsonValue} (h : Reads s v r)
    (hl : ∀ c ∈ l, isSpace c = true) : Reads (l ++ s) v r := by
  have hskip := skipSpace_append hl s
  cases h with
  | scalar h =>
      apply Reads.scalar
      cases h with
      | str hquote htext => exact .str (hquote.space hl) htext
      | null hs => exact .null (hskip.trans hs)
      | true hs => exact .true (hskip.trans hs)
      | false hs => exact .false (hskip.trans hs)
      | num hnumber => exact .num (by rw [hskip]; exact hnumber)
  | emptyArr hopen hend => exact .emptyArr (hopen.space hl) hend
  | arr hopen hitems => exact .arr (hopen.space hl) hitems
  | emptyObj hopen hend => exact .emptyObj (hopen.space hl) hend
  | obj hopen hmembers => exact .obj (hopen.space hl) hmembers

theorem ReadsItems.space {s r l : Bytes} {vs : List JsonValue} (h : ReadsItems s vs r)
    (hl : ∀ c ∈ l, isSpace c = true) : ReadsItems (l ++ s) vs r := by
  cases h with
  | last hvalue hend => exact .last (hvalue.space hl) hend
  | next hvalue hcomma hrest => exact .next (hvalue.space hl) hcomma hrest

theorem ReadsMembers.space {s r l : Bytes} {ms : List (Bytes × JsonValue)}
    (h : ReadsMembers s ms r) (hl : ∀ c ∈ l, isSpace c = true) : ReadsMembers (l ++ s) ms r := by
  cases h with
  | last hname hvalue hend => exact .last (hname.space hl) hvalue hend
  | next hname hvalue hcomma hrest => exact .next (hname.space hl) hvalue hcomma hrest

theorem numberEnds_nil : NumberEnds [] := by
  intro c hc
  cases hc

theorem numberEnds_space {c : UInt8} (hc : isSpace c = true) (r : Bytes) :
    NumberEnds (c :: r) := by
  intro d hd
  obtain rfl := Option.some.inj hd
  simp only [isSpace, Bool.or_eq_true, beq_iff_eq] at hc
  obtain ((rfl | rfl) | rfl) | rfl := hc <;> decide

/-- A value is followed by white space or by one of the bytes that end or go on with a list. -/
theorem numberEnds_append {c : UInt8} {l r : Bytes} (hl : ∀ c ∈ l, isSpace c = true)
    (hc : c = 44 ∨ c = 93 ∨ c = 125) : NumberEnds (l ++ c :: r) := by
  cases l with
  | nil =>
      intro d hd
      obtain rfl := Option.some.inj hd
      obtain rfl | rfl | rfl := hc <;> decide
  | cons d l => exact numberEnds_space (hl d List.mem_cons_self) _

theorem numberEnds_writeItems (L : Layout) (depth : ℕ) (vs : List Json) (r : Bytes) :
    NumberEnds (L.writeItems depth vs ++ r) := by
  cases vs with
  | nil =>
      rw [Layout.writeItems, List.append_assoc]
      exact numberEnds_append (L.line_space depth) (.inr (.inl rfl))
  | cons v vs => exact numberEnds_append (l := []) (fun c hc => by cases hc) (.inl rfl)

theorem numberEnds_writeMembers (L : Layout) (depth : ℕ) (ms : List (Bytes × Json)) (r : Bytes) :
    NumberEnds (L.writeMembers depth ms ++ r) := by
  cases ms with
  | nil =>
      rw [Layout.writeMembers, List.append_assoc]
      exact numberEnds_append (L.line_space depth) (.inr (.inr rfl))
  | cons m ms => exact numberEnds_append (l := []) (fun c hc => by cases hc) (.inl rfl)

theorem isSpace_of_isDigit {c : UInt8} (h : isDigit c = true) : Json.isSpace c = false := by
  simp only [isDigit, Bool.and_eq_true, decide_eq_true_eq] at h
  have hne : ∀ d : UInt8, d.toNat < 48 → c ≠ d := by
    rintro d hd rfl
    omega
  simp only [Json.isSpace, Bool.or_eq_false_iff, beq_eq_false_iff_ne]
  exact ⟨⟨⟨hne 32 (by decide), hne 9 (by decide)⟩, hne 13 (by decide)⟩, hne 10 (by decide)⟩

theorem skipSpace_formatInt (n : ℤ) (r : Bytes) :
    skipSpace (formatInt n ++ r) = formatInt n ++ r := by
  unfold formatInt
  split_ifs
  · exact skipSpace_cons rfl _
  · obtain ⟨c, t, ht, hc⟩ := formatUint_eq_cons n.natAbs
    rw [ht]
    exact skipSpace_cons (isSpace_of_isDigit hc) _

theorem readsName_cons {k r : Bytes} (hk : JsonText.IsText k) :
    ReadsName (34 :: (k ++ 34 :: 58 :: r)) k r :=
  ⟨58 :: r, begins_cons rfl _, hk, begins_cons rfl _⟩

mutual

/-- What is written in any layout is read back as the value that was written. -/
theorem reads_write (L : Layout) : ∀ (v : Json) (depth : ℕ) {r : Bytes}, v.Texts → NumberEnds r →
    Reads (L.write depth v ++ r) v.toValue r
  | .num n, depth, r, _, hr => by
      apply Reads.scalar
      apply ReadsScalar.num
      rw [Layout.write, skipSpace_formatInt, readNumber_formatInt n hr]
  | .str t, depth, r, ht, _ => by
      apply Reads.scalar
      apply ReadsScalar.str _ ht
      rw [Layout.write, List.cons_append, List.append_assoc]
      exact begins_cons rfl _
  | .arr [], depth, r, _, _ => .emptyArr (begins_cons rfl _) (begins_cons rfl _)
  | .arr (v :: vs), depth, r, ht, _ => by
      have hfirst := reads_write L v (depth + 1) ht.1 (numberEnds_writeItems L depth vs r)
      have hitems := reads_writeItems L vs depth ht.2 (hfirst.space (L.line_space (depth + 1)))
      rw [Layout.write, List.cons_append, List.append_assoc, List.append_assoc]
      exact .arr (begins_cons rfl _) hitems
  | .obj [], depth, r, _, _ => .emptyObj (begins_cons rfl _) (begins_cons rfl _)
  | .obj ((k, v) :: ms), depth, r, ht, _ => by
      have hfirst := reads_write L v (depth + 1) ht.2.1 (numberEnds_writeMembers L depth ms r)
      have hmembers := reads_writeMembers L ms depth ht.2.2
        ((readsName_cons ht.1).space (L.line_space (depth + 1))) (hfirst.space L.gap_space)
      rw [Layout.write, Layout.writeMember]
      simp only [List.cons_append, List.append_assoc] at hmembers ⊢
      exact .obj (begins_cons rfl _) hmembers
  termination_by structural v => v

theorem reads_writeItems (L : Layout) : ∀ (vs : List Json) (depth : ℕ) {s r : Bytes}
    {first : JsonValue}, Json.ItemTexts vs → Reads s first (L.writeItems depth vs ++ r) →
      ReadsItems s (first :: Json.itemValues vs) r
  | [], depth, s, r, first, _, hfirst => by
      rw [Layout.writeItems, List.append_assoc] at hfirst
      exact .last hfirst ((begins_cons rfl _).space (L.line_space depth))
  | v :: vs, depth, s, r, first, ht, hfirst => by
      have hnext := reads_write L v (depth + 1) ht.1 (numberEnds_writeItems L depth vs r)
      have hitems := reads_writeItems L vs depth ht.2 (hnext.space (L.line_space (depth + 1)))
      rw [Layout.writeItems, List.cons_append, List.append_assoc, List.append_assoc] at hfirst
      exact .next hfirst (begins_cons rfl _) hitems
  termination_by structural vs => vs

theorem reads_writeMembers (L : Layout) : ∀ (ms : List (Bytes × Json)) (depth : ℕ)
    {s s' r name : Bytes} {first : JsonValue}, Json.MemberTexts ms → ReadsName s name s' →
      Reads s' first (L.writeMembers depth ms ++ r) →
        ReadsMembers s ((name, first) :: Json.memberValues ms) r
  | [], depth, s, s', r, name, first, _, hname, hfirst => by
      rw [Layout.writeMembers, List.append_assoc] at hfirst
      exact .last hname hfirst ((begins_cons rfl _).space (L.line_space depth))
  | (k, v) :: ms, depth, s, s', r, name, first, ht, hname, hfirst => by
      have hnext := reads_write L v (depth + 1) ht.2.1 (numberEnds_writeMembers L depth ms r)
      have hmembers := reads_writeMembers L ms depth ht.2.2
        ((readsName_cons ht.1).space (L.line_space (depth + 1))) (hnext.space L.gap_space)
      rw [Layout.writeMembers, Layout.writeMember] at hfirst
      simp only [List.cons_append, List.append_assoc] at hfirst hmembers
      exact .next hname hfirst (begins_cons rfl _) hmembers
  termination_by structural ms => ms

end

theorem read_encode {v : Json} (h : v.Texts) {r : Bytes} (hr : NumberEnds r) :
    read (v.encode ++ r) = some (v.toValue, r) := by
  rw [← Layout.write_marshal v 0]
  exact read_eq_some.mpr (reads_write _ v 0 h hr)

theorem read_indent {v : Json} (h : v.Texts) (depth : ℕ) {r : Bytes} (hr : NumberEnds r) :
    read (v.indent depth ++ r) = some (v.toValue, r) := by
  rw [← Layout.write_indented v depth]
  exact read_eq_some.mpr (reads_write _ v depth h hr)

end JsonValue

end CloudHelp
