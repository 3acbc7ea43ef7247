import CloudHelp.GoValues

/-!
# The text format of metrics

A reader for the exposition format: a line is blank, a comment, or a sample with a metric name,
labels in braces, a value and perhaps a timestamp. In a label value a backslash stands before a
backslash, a quote or the letter of a newline, and nothing else; the value ends at the first quote
that has none. `readSample_sampleText` says that the reader finds in a printed sample what was
printed, whatever bytes the label values hold.
-/

namespace CloudHelp.Prometheus

structure Sample where
  name : Bytes
  labels : List (Bytes × Bytes)
  value : Bytes
  timestamp : Option Bytes
  deriving DecidableEq, Repr

/-! ## Reading -/

def isBlank (c : UInt8) : Bool := c == 32 || c == 9

def skipBlanks (s : Bytes) : Bytes := s.dropWhile isBlank

def isLetter (c : UInt8) : Bool :=
  (65 ≤ c.toNat && c.toNat ≤ 90) || (97 ≤ c.toNat && c.toNat ≤ 122) || c == 95

def isLetterOrDigit (c : UInt8) : Bool := isLetter c || (48 ≤ c.toNat && c.toNat ≤ 57)

/-- `[a-zA-Z_][a-zA-Z0-9_]*`, followed by what is not part of it. A metric name may also hold
colons. -/
def readName (colon : Bool) : Bytes → Option (Bytes × Bytes)
  | [] => none
  | c :: rest =>
      let inside : UInt8 → Bool := fun c => isLetterOrDigit c || (colon && c == 58)
      if isLetter c || (colon && c == 58) then
        some (c :: rest.takeWhile inside, rest.dropWhile inside)
      else none

def readValue : Bytes → Option (Bytes × Bytes)
  | [] => none
  | 34 :: rest => some ([], rest)
  | 92 :: 92 :: rest => (readValue rest).map fun (value, after) => (92 :: value, after)
  | 92 :: 34 :: rest => (readValue rest).map fun (value, after) => (34 :: value, after)
  | 92 :: 110 :: rest => (readValue rest).map fun (value, after) => (10 :: value, after)
  | 92 :: _ => none
  | 10 :: _ => none
  | c :: rest => (readValue rest).map fun (value, after) => (c :: value, after)

def expect (c : UInt8) (s : Bytes) : Option Bytes :=
  if (skipBlanks s).head? = some c then some (skipBlanks s).tail else none

def readLabel (s : Bytes) : Option ((Bytes × Bytes) × Bytes) :=
  (readName false (skipBlanks s)).bind fun (name, s) =>
    (expect 61 s).bind fun s =>
      (expect 34 s).bind fun s =>
        (readValue s).map fun (value, after) => ((name, value), after)

/-- The labels after the opening brace; a comma may stand before the closing one. -/
def readLabels : ℕ → Bytes → Option (List (Bytes × Bytes) × Bytes)
  | 0, _ => none
  | fuel + 1, s =>
      match expect 125 s with
      | some after => some ([], after)
      | none =>
          (readLabel s).bind fun (label, s) =>
            match expect 44 s with
            | some s => (readLabels fuel s).map fun (labels, after) => (label :: labels, after)
            | none => (expect 125 s).map fun after => ([label], after)

def readNumbers (s : Bytes) : Option (Bytes × Option Bytes) :=
  let value := (skipBlanks s).takeWhile fun c => !isBlank c
  let after := skipBlanks ((skipBlanks s).dropWhile fun c => !isBlank c)
  if value = [] then none
  else if after = [] then some (value, none)
  else if after.any isBlank then none
  else some (value, some after)

def readSample (line : Bytes) : Option Sample :=
  (readName true (skipBlanks line)).bind fun (name, s) =>
    match expect 123 s with
    | some inside =>
        (readLabels (s.length + 1) inside).bind fun (labels, s) =>
          (readNumbers s).map fun (value, time) => ⟨name, labels, value, time⟩
    | none => (readNumbers s).map fun (value, time) => ⟨name, [], value, time⟩

def isComment (line : Bytes) : Bool :=
  match skipBlanks line with
  | [] => true
  | c :: _ => c == 35

def parse (text : Bytes) : Option (List Sample) :=
  ((text.splitOn 10).filter fun line => !isComment line).mapM readSample

/-! ## Printing -/

def escapeByte (c : UInt8) : Bytes :=
  if c = 92 then [92, 92] else if c = 34 then [92, 34] else if c = 10 then [92, 110] else [c]

def escape (s : Bytes) : Bytes := s.flatMap escapeByte

def labelText (label : Bytes × Bytes) : Bytes := label.1 ++ 61 :: 34 :: (escape label.2 ++ [34])

def labelsText : List (Bytes × Bytes) → Bytes
  | [] => []
  | [label] => labelText label
  | label :: rest => labelText label ++ 44 :: labelsText rest

def sampleText (name : Bytes) (labels : List (Bytes × Bytes)) (value : Bytes) : Bytes :=
  name ++ 123 :: (labelsText labels ++ 125 :: 32 :: value)

/-! ## The reader on printed text -/

def isName : Bytes → Bool
  | [] => false
  | c :: rest => isLetter c && rest.all isLetterOrDigit

theorem skipBlanks_cons {c : UInt8} {s : Bytes} (h : isBlank c = false) :
    skipBlanks (c :: s) = c :: s := by
  simp [skipBlanks, h]

theorem expect_cons {c : UInt8} (h : isBlank c = false) (s : Bytes) :
    expect c (c :: s) = some s := by
  simp [expect, skipBlanks_cons h]

theorem expect_cons_ne {c d : UInt8} (h : isBlank d = false) (hne : d ≠ c) (s : Bytes) :
    expect c (d :: s) = none := by
  simp [expect, skipBlanks_cons h, hne]

theorem not_blank_of_letter {c : UInt8} (h : isLetter c = true) : isBlank c = false := by
  by_contra hblank
  simp only [isBlank, Bool.not_eq_false, Bool.or_eq_true, beq_iff_eq] at hblank
  rcases hblank with rfl | rfl <;> revert h <;> decide

theorem readName_append {colon : Bool} {name : Bytes} {d : UInt8} (h : isName name = true)
    (hd : (isLetterOrDigit d || (colon && d == 58)) = false) (s : Bytes) :
    readName colon (name ++ d :: s) = some (name, d :: s) := by
  cases name with
  | nil => cases h
  | cons c rest =>
      simp only [isName, Bool.and_eq_true, List.all_eq_true] at h
      obtain ⟨hfirst, hrest⟩ := h
      have hinside : ∀ b ∈ rest, (isLetterOrDigit b || (colon && b == 58)) = true := by
        intro b hb
        rw [hrest b hb, Bool.true_or]
      rw [List.cons_append, readName, if_pos (by simp [hfirst])]
      rw [List.takeWhile_append_of_pos hinside, List.dropWhile_append_of_pos hinside,
        List.takeWhile_cons_of_neg (by simp [hd]), List.dropWhile_cons_of_neg (by simp [hd]),
        List.append_nil]

theorem skipBlanks_name {name : Bytes} (h : isName name = true) (s : Bytes) :
    skipBlanks (name ++ s) = name ++ s := by
  cases name with
  | nil => cases h
  | cons c rest =>
      simp only [isName, Bool.and_eq_true] at h
      exact skipBlanks_cons (not_blank_of_letter h.1)

theorem readValue_plain {c : UInt8} (h92 : c ≠ 92) (h34 : c ≠ 34) (h10 : c ≠ 10) (s : Bytes) :
    readValue (c :: s) = (readValue s).map fun (value, after) => (c :: value, after) := by
  rw [readValue] <;> simp_all

/-- The reader takes an escaped value back to the value and stops at the quote behind it. -/
theorem readValue_escape (value s : Bytes) :
    readValue (escape value ++ 34 :: s) = some (value, s) := by
  induction value with
  | nil => rfl
  | cons c value ih =>
      have hcons : escape (c :: value) ++ 34 :: s = escapeByte c ++ (escape value ++ 34 :: s) := by
        simp [escape]
      rw [hcons]
      by_cases h92 : c = 92
      · subst h92
        change readValue (92 :: 92 :: (escape value ++ 34 :: s)) = _
        rw [readValue, ih]
        rfl
      · by_cases h34 : c = 34
        · subst h34
          change readValue (92 :: 34 :: (escape value ++ 34 :: s)) = _
          rw [readValue, ih]
          rfl
        · by_cases h10 : c = 10
          · subst h10
            change readValue (92 :: 110 :: (escape value ++ 34 :: s)) = _
            rw [readValue, ih]
            rfl
          · have hbyte : escapeByte c = [c] := by simp [escapeByte, h92, h34, h10]
            rw [hbyte, List.singleton_append, readValue_plain h92 h34 h10, ih]
            rfl

theorem readLabel_labelText {label : Bytes × Bytes} (h : isName label.1 = true) (s : Bytes) :
    readLabel (labelText label ++ s) = some (label, s) := by
  have htext : labelText label ++ s = label.1 ++ 61 :: 34 :: (escape label.2 ++ 34 :: s) := by
    simp [labelText]
  rw [htext, readLabel, skipBlanks_name h, readName_append h (by decide), Option.bind_some]
  dsimp only
  rw [expect_cons (by decide), Option.bind_some, expect_cons (by decide), Option.bind_some,
    readValue_escape]
  rfl

/-- Where a label starts, the braces do not end. -/
theorem expect_brace_labelText {label : Bytes × Bytes} (h : isName label.1 = true) (s : Bytes) :
    expect 125 (labelText label ++ s) = none := by
  have htext : labelText label ++ s = label.1 ++ (61 :: 34 :: (escape label.2 ++ [34]) ++ s) := by
    simp [labelText]
  rw [htext]
  cases hname : label.1 with
  | nil =>
      rw [hname] at h
      cases h
  | cons c rest =>
      rw [hname] at h
      simp only [isName, Bool.and_eq_true] at h
      apply expect_cons_ne (not_blank_of_letter h.1)
      rintro rfl
      exact absurd h.1 (by decide)

theorem readLabels_labelsText {labels : List (Bytes × Bytes)} (hne : labels ≠ [])
    (h : ∀ label ∈ labels, isName label.1 = true) (s : Bytes) {fuel : ℕ}
    (hfuel : labels.length ≤ fuel) :
    readLabels fuel (labelsText labels ++ 125 :: s) = some (labels, s) := by
  induction labels generalizing fuel with
  | nil => exact absurd rfl hne
  | cons label rest ih =>
      have hlabel := h label List.mem_cons_self
      cases fuel with
      | zero => simp at hfuel
      | succ fuel =>
          cases rest with
          | nil =>
              rw [labelsText, readLabels, expect_brace_labelText hlabel, readLabel_labelText hlabel]
              simp [expect_cons_ne, expect_cons, isBlank]
          | cons next rest =>
              have hlength : (next :: rest).length ≤ fuel := by simpa using hfuel
              have hrest := ih (List.cons_ne_nil _ _)
                (fun other hother => h other (List.mem_cons_of_mem _ hother)) hlength
              have htext : labelsText (label :: next :: rest) ++ 125 :: s =
                  labelText label ++ 44 :: (labelsText (next :: rest) ++ 125 :: s) := by
                simp [labelsText]
              rw [htext, readLabels, expect_brace_labelText hlabel, readLabel_labelText hlabel]
              simp [expect_cons, isBlank, hrest]

theorem length_le_labelsText (labels : List (Bytes × Bytes)) :
    labels.length ≤ (labelsText labels).length := by
  induction labels with
  | nil => simp
  | cons label rest ih =>
      cases rest with
      | nil =>
          simp only [labelsText, labelText, List.length_append, List.length_cons]
          omega
      | cons next rest =>
          simp only [labelsText, List.length_append, List.length_cons] at ih ⊢
          omega

theorem readNumbers_value {value : Bytes} (hne : value ≠ []) (h : ∀ c ∈ value, isBlank c = false) :
    readNumbers (32 :: value) = some (value, none) := by
  have hskip : skipBlanks (32 :: value) = value := by
    rw [skipBlanks, List.dropWhile_cons_of_pos (by decide)]
    cases value with
    | nil => rfl
    | cons c rest => exact skipBlanks_cons (h c List.mem_cons_self)
  have htake : value.takeWhile (fun c => !isBlank c) = value :=
    List.takeWhile_eq_self_iff.mpr fun c hc => by simp [h c hc]
  have hdrop : value.dropWhile (fun c => !isBlank c) = [] :=
    List.dropWhile_eq_nil_iff.mpr fun c hc => by simp [h c hc]
  unfold readNumbers
  rw [hskip, htake, hdrop, if_neg hne]
  rfl

/-- A printed sample is read as it was meant. -/
theorem readSample_sampleText {name value : Bytes} {labels : List (Bytes × Bytes)}
    (hname : isName name = true) (hne : labels ≠ [])
    (hlabels : ∀ label ∈ labels, isName label.1 = true) (hvalue : value ≠ [])
    (hplain : ∀ c ∈ value, isBlank c = false) :
    readSample (sampleText name labels value) = some ⟨name, labels, value, none⟩ := by
  have hlen := length_le_labelsText labels
  rw [readSample, sampleText, skipBlanks_name hname, readName_append hname (by decide),
    Option.bind_some]
  dsimp only
  rw [expect_cons (by decide)]
  dsimp only
  rw [readLabels_labelsText hne hlabels, Option.bind_some]
  · dsimp only
    rw [readNumbers_value hvalue hplain]
    rfl
  · simp only [List.length_cons, List.length_append]
    omega

/-! ## Lines -/

theorem newline_not_mem_escape (s : Bytes) : 10 ∉ escape s := by
  intro h
  obtain ⟨c, -, hc⟩ := List.mem_flatMap.mp h
  unfold escapeByte at hc
  split_ifs at hc with h92 h34 h10
  · exact absurd hc (by decide)
  · exact absurd hc (by decide)
  · exact absurd hc (by decide)
  · exact h10 (List.mem_singleton.mp hc).symm

theorem newline_not_mem_name {name : Bytes} (h : isName name = true) : 10 ∉ name := by
  intro hmem
  cases name with
  | nil => cases h
  | cons c rest =>
      simp only [isName, Bool.and_eq_true, List.all_eq_true] at h
      rcases List.mem_cons.mp hmem with rfl | hrest
      · exact absurd h.1 (by decide)
      · exact absurd (h.2 10 hrest) (by decide)

theorem newline_not_mem_labelsText {labels : List (Bytes × Bytes)}
    (h : ∀ label ∈ labels, isName label.1 = true) : 10 ∉ labelsText labels := by
  induction labels with
  | nil => simp [labelsText]
  | cons label rest ih =>
      have hname := newline_not_mem_name (h label List.mem_cons_self)
      have hrest := ih fun other hother => h other (List.mem_cons_of_mem _ hother)
      have hlabel : 10 ∉ labelText label := by
        simp [labelText, hname, newline_not_mem_escape]
      cases rest with
      | nil => exact hlabel
      | cons next rest =>
          rw [labelsText]
          · simp only [List.mem_append, List.mem_cons]
            rintro (hfirst | hcomma | hlater)
            · exact hlabel hfirst
            · exact absurd hcomma (by decide)
            · exact hrest hlater
          · simp

theorem newline_not_mem_sampleText {name value : Bytes} {labels : List (Bytes × Bytes)}
    (hname : isName name = true) (hlabels : ∀ label ∈ labels, isName label.1 = true)
    (hvalue : 10 ∉ value) : 10 ∉ sampleText name labels value := by
  simp [sampleText, newline_not_mem_name hname, newline_not_mem_labelsText hlabels, hvalue]

theorem not_isComment_sampleText {name : Bytes} (h : isName name = true)
    (labels : List (Bytes × Bytes)) (value : Bytes) :
    isComment (sampleText name labels value) = false := by
  unfold isComment sampleText
  rw [skipBlanks_name h]
  cases name with
  | nil => cases h
  | cons c rest =>
      simp only [isName, Bool.and_eq_true] at h
      rw [List.cons_append]
      dsimp only
      by_contra hhash
      obtain rfl : c = 35 := by simpa using hhash
      exact absurd h.1 (by decide)

/-- A text is read line by line. -/
theorem parse_cons {line : Bytes} (h : 10 ∉ line) (text : Bytes) :
    parse (line ++ 10 :: text) = if isComment line then parse text
      else (readSample line).bind fun sample => (parse text).map fun samples =>
        sample :: samples := by
  have hsplit : (line ++ 10 :: text).splitOn 10 = line :: text.splitOn 10 := by
    apply List.splitOnP_append_cons_of_forall_mem
    · intro c hc
      simpa using fun heq : c = 10 => h (heq ▸ hc)
    · rfl
  unfold parse
  rw [hsplit]
  cases hcomment : isComment line with
  | true => simp [hcomment]
  | false =>
      simp only [List.filter_cons, hcomment, Bool.not_false, if_true, List.mapM_cons]
      cases readSample line with
      | none => rfl
      | some sample =>
          cases ((text.splitOn 10).filter fun line => !isComment line).mapM readSample <;> rfl

end CloudHelp.Prometheus
