import CloudHelp.TelemetryStore

/-!
# The validators and the constraints of the database

A row that `Register` or `Record` hands to its store passes every constraint the server puts on
the row alone (`rows_satisfy_checks`). The two sides count differently: the code counts characters
where the database also counts octets, and the code trims every Unicode space where the database
trims one.

The rule on addresses in a label is weaker than the comment on the column: `validISP` looks at the
label as a whole, so a label of one word is never an address, and a label of several words may hold
one unless it has too few points and colons (`label_without_address`).
-/

namespace CloudHelp

/-- A string of such a pattern has at least one byte, at most one more than `most`, and each byte
is in one of the two classes. -/
theorem of_matchesHeadTail {first rest : UInt8 → Bool} {most : ℕ} {s : Bytes}
    (h : matchesHeadTail first rest most s = true) :
    (∀ c ∈ s, first c = true ∨ rest c = true) ∧ 1 ≤ s.length ∧ s.length ≤ most + 1 := by
  cases s with
  | nil => cases h
  | cons c cs =>
      simp only [matchesHeadTail, Bool.and_eq_true, List.all_eq_true, decide_eq_true_eq] at h
      obtain ⟨⟨hfirst, hrest⟩, hlen⟩ := h
      refine ⟨?_, ?_, ?_⟩
      · intro b hb
        rcases List.mem_cons.mp hb with rfl | hb
        · exact .inl hfirst
        · exact .inr (hrest b hb)
      · rw [List.length_cons]
        omega
      · rw [List.length_cons]
        omega

namespace PilotTelemetry

open PilotAccess (Access RegisterInput)

/-! ## Texts a column can hold -/

theorem storable_of_ascii {s : Bytes} (h : ∀ c ∈ s, 0 < c.toNat ∧ c.toNat < 128) :
    storable s = true := by
  have hvalid := Utf8.validString_of_ascii fun c hc => (h c hc).2
  have hzero : (0 : UInt8) ∉ s := by
    intro h0
    have := (h 0 h0).1
    simp at this
  simp [storable, hvalid, hzero]

theorem storable_of_mem {s : Bytes} {l : List Bytes} (h : s ∈ l)
    (hl : ∀ t ∈ l, storable t = true) : storable s = true :=
  hl s h

theorem identifier_ascii {c : UInt8} (h : VpnNode.isIdentifierStart c = true ∨
    (VpnNode.isIdentifierStart c || c == 45) = true) : 0 < c.toNat ∧ c.toNat < 128 := by
  by_cases hdash : c = 45
  · subst hdash
    decide
  · simp only [VpnNode.isIdentifierStart, isLower, isDigit, Bool.or_eq_true, Bool.and_eq_true,
      decide_eq_true_eq, beq_iff_eq, hdash, or_false] at h
    omega

theorem reference_ascii {c : UInt8} (h : PilotAccess.isAlphanumeric c = true ∨
    (PilotAccess.isAlphanumeric c || c == 46 || c == 95 || c == 58 || c == 64 || c == 47 ||
      c == 43 || c == 45 || c == 61) = true) : 0 < c.toNat ∧ c.toNat < 128 := by
  by_cases halnum : PilotAccess.isAlphanumeric c = true
  · simp only [PilotAccess.isAlphanumeric, isLower, isUpper, isDigit, Bool.or_eq_true,
      Bool.and_eq_true, decide_eq_true_eq] at halnum
    omega
  · simp only [halnum, Bool.or_eq_true, beq_iff_eq, false_or, Bool.false_eq_true] at h
    rcases h with ((((((rfl | rfl) | rfl) | rfl) | rfl) | rfl) | rfl) | rfl <;> decide

/-- A label holds no control character, so no zero byte. -/
theorem IsLabel.storable {label : Bytes} (h : IsLabel label) : storable label = true := by
  have hzero : (0 : UInt8) ∉ label := by
    intro h0
    rw [← Utf8.flatMap_bytes_pieces label] at h0
    obtain ⟨p, hp, hbyte⟩ := List.mem_flatMap.mp h0
    obtain ⟨code, rfl, hcode⟩ := Utf8.exists_rune h.valid hp
    cases code with
    | nil => exact hcode.1 rfl
    | cons a rest =>
        rcases List.mem_cons.mp hbyte with rfl | htail
        · -- an encoding that starts with a zero byte is that byte
          have hlead := (Utf8.runeWidth_eq_succ hcode.2).1
          have hrest : rest = [] := by
            apply List.eq_nil_of_length_eq_zero
            have hone : Utf8.leadWidth 0 = 1 := by decide
            omega
          subst hrest
          have := h.printable _ hp
          revert this
          decide
        · have := hcode.tail_not_ascii 0 htail
          simp at this
  simp [PilotTelemetry.storable, h.valid, hzero]

/-! ## Rows of the two tables -/

theorem IsLabel.check {label : Bytes} (h : IsLabel label) : ISPCheck label where
  charLength := ⟨h.count_pos, h.count_le⟩
  octetLength := by
    have hbytes := Utf8.length_le_of_validString h.valid
    have hcount : Utf8.runeCount label ≤ 100 := h.count_le
    omega
  btrim := (Utf8.trim_space_eq_self h.valid h.trimmed).symm
  noControl := h.printable

theorem satisfiesChecks_of_isValid {result : TestResult} (h : IsValid result)
    (hold : result.recordedAt - maximumResultAge ≤ result.occurredAt)
    (hskew : result.occurredAt ≤ result.recordedAt + maximumClockSkew) :
    SatisfiesChecks result where
  clientPlatform := h.platform
  isp := fun label hlabel => (h.label label hlabel).check
  transport := by
    rcases h.transport with ht | ht
    · rw [ht]
      exact List.mem_cons_self
    · rw [ht]
      exact List.mem_cons_of_mem _ List.mem_cons_self
  failureStage := fun stage hstage => of_decide_eq_true (h.stage stage hstage)
  connectionTimeBucket := of_decide_eq_true h.connection
  throughputBucket := fun bucket hbucket => of_decide_eq_true (h.throughput bucket hbucket)
  success := h.consistent
  window := ⟨hold, hskew⟩

theorem storable_textColumns {result : TestResult} (h : IsValid result)
    (hc : SatisfiesChecks result) :
    ∀ text ∈ textColumns result, storable text = true := by
  intro text htext
  simp only [textColumns, List.mem_append, List.mem_cons, List.not_mem_nil, or_false,
    Option.mem_toList] at htext
  rcases htext with (((rfl | rfl | rfl) | hisp) | hstage) | hbucket
  · exact storable_of_mem hc.clientPlatform (by decide)
  · exact storable_of_mem hc.transport (by decide)
  · exact storable_of_mem hc.connectionTimeBucket (by decide)
  · exact (h.label text hisp).storable
  · exact storable_of_mem (hc.failureStage text hstage) (by decide)
  · exact storable_of_mem (hc.throughputBucket text hbucket) (by decide)

theorem rowViolation_of_isValid {access : Access} (h : PilotAccess.IsValid access)
    (hstatus : access.status = .active) (hrevoked : access.revokedAt = none) :
    PilotAccess.rowViolation access = none := by
  obtain ⟨hchars, hpos, hlen⟩ := of_matchesHeadTail h.externalReference
  have hpieces := Utf8.pieces_of_ascii fun c hc => (reference_ascii (hchars c hc)).2
  have hexpiry := h.expiry
  unfold PilotAccess.validExpiry at hexpiry
  unfold PilotAccess.rowViolation
  cases hat : access.expiresAt with
  | none => simp [hat] at hexpiry
  | some expiresAt =>
      simp only [hat, Bool.and_eq_true, decide_eq_true_eq] at hexpiry
      dsimp only
      rw [if_pos]
      simp only [PilotAccess.satisfiesChecks, hpieces, List.length_map, hstatus, hrevoked,
        decide_eq_true_eq]
      exact ⟨h.transport, ⟨hpos, hlen⟩, hexpiry, by simp, by simp, by simp⟩

/-- The `text` columns of a row of `vpn_accesses` that the caller chooses. -/
def accessTexts (access : Access) : List Bytes :=
  [access.nodeID, access.transport, access.externalReference]

theorem storable_accessTexts {access : Access} (h : PilotAccess.IsValid access) :
    ∀ text ∈ accessTexts access, storable text = true := by
  intro text htext
  simp only [accessTexts, List.mem_cons, List.not_mem_nil, or_false] at htext
  rcases htext with rfl | rfl | rfl
  · apply storable_of_ascii
    intro c hc
    exact identifier_ascii ((of_matchesHeadTail h.nodeID).1 c hc)
  · have hmem : access.transport ∈ [VpnNode.transportAmneziaWG, VpnNode.transportXRayReality] := by
      simpa using h.transport
    exact storable_of_mem hmem (by decide)
  · apply storable_of_ascii
    intro c hc
    exact reference_ascii ((of_matchesHeadTail h.externalReference).1 c hc)

/-- Every row `Register` or `Record` hands to its store passes the constraints on the row alone. -/
theorem rows_satisfy_checks :
    (∀ (input : RegisterInput) (now : ℤ) (newID : Except Error Bytes) (access : Access),
      PilotAccess.beforeCreate input now newID = .ok access →
        PilotAccess.rowViolation access = none ∧
        (∀ text ∈ accessTexts access, storable text = true) ∧
        PilotAccess.uuidPattern access.id = true ∧ PilotAccess.uuidPattern access.deviceID = true) ∧
    (∀ (input : RecordInput) (now : ℤ) (newID : Except Error Bytes) (result : TestResult),
      beforeCreate input now newID = .ok result →
        SatisfiesChecks result ∧
        (∀ text ∈ textColumns result, storable text = true) ∧
        PilotAccess.uuidPattern result.id = true ∧ PilotAccess.uuidPattern result.deviceID = true ∧
        ∀ (tables : Tables) (code : String), insertResult tables result = .error code →
          code = "23505" ∨ code = "23503") := by
  constructor
  · intro input now newID access h
    obtain ⟨hvalidate, hstatus, hrevoked⟩ := PilotAccess.beforeCreate_eq_ok h
    have hvalid := PilotAccess.isValid_of_validate hvalidate
    exact ⟨rowViolation_of_isValid hvalid hstatus hrevoked, storable_accessTexts hvalid, hvalid.id,
      hvalid.deviceID⟩
  · intro input now newID result h
    obtain ⟨hvalid, hold, hskew⟩ := beforeCreate_eq_ok h
    have hchecks := satisfiesChecks_of_isValid hvalid hold hskew
    have htexts := storable_textColumns hvalid hchecks
    exact ⟨hchecks, htexts, hvalid.id, hvalid.deviceID,
      fun tables code hcode => insertResult_code htexts hchecks hcode⟩

namespace Sample

def uuid : Bytes := str "5f0c9a52-3b1e-4c6d-8a77-0123456789ab"

def now : ℤ := 63902908800 * Duration.second

/-- A failed test, 30 days old to the second, with a label of two-byte characters and a wider space
around it. -/
def oldest : RecordInput :=
  { deviceID := uuid
    clientPlatform := str "android"
    isp := some ([0xC2, 0xA0] ++ (List.replicate 100 [0xC3, 0xA9]).flatten ++ [32])
    transport := str "amneziawg"
    occurredAt := now - maximumResultAge
    success := false
    failureStage := some (str "dns")
    connectionTimeBucket := str "unknown"
    throughputBucket := none }

def longest : RegisterInput :=
  { deviceID := uuid
    nodeID := str "node-1"
    transport := str "xray_reality"
    externalReference := str "client@1"
    expiresAt := some (now + PilotAccess.maximumPilotAccessLifetime) }

end Sample

theorem rows_satisfy_checks_boundary :
    (∃ access, PilotAccess.beforeCreate Sample.longest Sample.now (.ok Sample.uuid) = .ok access ∧
      PilotAccess.rowViolation access = none) ∧
    ∃ result, beforeCreate Sample.oldest Sample.now (.ok Sample.uuid) = .ok result ∧
      SatisfiesChecks result := by
  have haccess : (PilotAccess.beforeCreate Sample.longest Sample.now (.ok Sample.uuid)).isOk =
      true := by decide
  have hresult : (beforeCreate Sample.oldest Sample.now (.ok Sample.uuid)).isOk = true := by
    decide +kernel
  constructor
  · obtain ⟨access, h⟩ := exists_of_isOk haccess
    exact ⟨access, h, (rows_satisfy_checks.1 _ _ _ _ h).1⟩
  · obtain ⟨result, h⟩ := exists_of_isOk hresult
    exact ⟨result, h, (rows_satisfy_checks.2 _ _ _ _ h).1⟩

/-! ## Addresses in a label -/

def NoAddress (label : Bytes) : Prop := ∀ part ∈ label.splitOn 32, IP.parseIP part = false

instance (label : Bytes) : Decidable (NoAddress label) :=
  inferInstanceAs (Decidable (∀ part ∈ label.splitOn 32, IP.parseIP part = false))

theorem sublist_intercalate (sep : Bytes) {part : Bytes} {parts : List Bytes} (h : part ∈ parts) :
    part.Sublist (sep.intercalate parts) := by
  induction parts with
  | nil => cases h
  | cons first rest ih =>
      cases rest with
      | nil =>
          rw [List.mem_singleton] at h
          simp [List.intercalate, h]
      | cons next rest =>
          have hjoin : sep.intercalate (first :: next :: rest) =
              first ++ (sep ++ sep.intercalate (next :: rest)) := by
            simp [List.intercalate]
          rw [hjoin]
          rcases List.mem_cons.mp h with rfl | h
          · exact List.sublist_append_left _ _
          · exact ((ih h).trans (List.sublist_append_right _ _)).trans
              (List.sublist_append_right _ _)

theorem count_le_of_mem_splitOn {part s : Bytes} (h : part ∈ s.splitOn 32) (c : UInt8) :
    part.count c ≤ s.count c := by
  have hjoin : [32].intercalate (s.splitOn 32) = s := List.intercalate_splitOn 32
  have hsub := sublist_intercalate [32] h
  rw [hjoin] at hsub
  exact hsub.count_le c

theorem isp_of_beforeCreate {input : RecordInput} {now : ℤ} {newID : Except Error Bytes}
    {result : TestResult} (h : beforeCreate input now newID = .ok result) :
    result.isp = input.isp.map Utf8.trimSpace := by
  unfold beforeCreate at h
  cases newID with
  | error e => cases h
  | ok identifier =>
      dsimp only at h
      split_ifs at h
      split at h
      · cases h
      · obtain rfl := Except.ok.inj h
        rfl

/-- A text that cannot hold an address next to anything else: one word, or too few points and
colons for an address. -/
def Harmless (text : Bytes) : Prop := 32 ∉ text ∨ text.count 46 < 3 ∧ text.count 58 < 2

instance (text : Bytes) : Decidable (Harmless text) := inferInstanceAs (Decidable (_ ∨ _))

theorem noAddress_of_harmless {text : Bytes} (hwhole : IP.parseIP text = false)
    (h : Harmless text) : NoAddress text := by
  intro part hpart
  rcases h with hword | ⟨hpoints, hcolons⟩
  · have hsplit : text.splitOn 32 = [text] := by
      apply List.splitOnP_eq_singleton
      intro c hc
      have hne : c ≠ 32 := fun he => hword (he ▸ hc)
      simpa using hne
    rw [hsplit, List.mem_singleton] at hpart
    rw [hpart]
    exact hwhole
  · rw [← Bool.not_eq_true]
    intro haddress
    have hpoints' := count_le_of_mem_splitOn hpart 46
    have hcolons' := count_le_of_mem_splitOn hpart 58
    rcases (IP.of_parseIP haddress).1 with hcount | hcount <;> omega

/-- Where a label has a space, `validISP` is the same without its look at addresses. -/
theorem validISP_of_space {label : Bytes} (h : 32 ∈ label) :
    validISP label = true ↔ Utf8.validString label = true ∧ Utf8.trimSpace label = label ∧
      1 ≤ Utf8.runeCount label ∧ Utf8.runeCount label ≤ maximumISPCodepoints ∧
      ∀ p ∈ Utf8.pieces label, p.isControl = false := by
  have hip : IP.parseIP label = false := by
    rw [← Bool.not_eq_true]
    exact fun haddress => (IP.of_parseIP haddress).2 h
  rw [validISP_eq_true]
  exact ⟨fun hlabel => ⟨hlabel.valid, hlabel.trimmed, hlabel.count_pos, hlabel.count_le,
      hlabel.printable⟩,
    fun ⟨hvalid, htrimmed, hpos, hle, hprintable⟩ =>
      ⟨hvalid, htrimmed, hip, hpos, hle, hprintable⟩⟩

/-- A stored label holds no address if the text it was trimmed from is harmless. For other texts
with a space nothing is checked (`validISP_of_space`): the address that is the whole label is
refused, the one next to another word is not. -/
theorem label_without_address (S : SortSlice) (tables after : Tables) (input : RecordInput)
    (now : ℤ) (newID : Except Error Bytes) (result : TestResult) (text : Bytes)
    (h : record S tables input now newID = (after, .ok result)) (htext : input.isp = some text)
    (hharmless : Harmless (Utf8.trimSpace text)) :
    ∃ label, result.isp = some label ∧ result ∈ after.results ∧ NoAddress label := by
  obtain ⟨hbefore, hstored⟩ := record_eq_ok h
  have hisp : result.isp = some (Utf8.trimSpace text) := by
    rw [isp_of_beforeCreate hbefore, htext, Option.map_some]
  have hvalid := (beforeCreate_eq_ok hbefore).1.label _ hisp
  exact ⟨_, hisp, hstored, noAddress_of_harmless hvalid.notIP hharmless⟩

namespace Sample

def labelled (label : Bytes) : RecordInput := { oldest with isp := some label }

def tables : Tables where
  results := []
  accesses := []
  devices := [⟨uuid, uuid⟩]
  resultKey := by simp
  accessKey := by simp
  deviceKey := by simp
  resultChecks := by simp
  accessChecks := by simp
  resultDevice := by simp
  accessDevice := by simp

def recorded (label : Bytes) : Tables × Except Error TestResult :=
  record insertionSort tables (labelled label) now (.ok uuid)

def stored (label : Bytes) : TestResult := newResult (labelled label) uuid now

theorem recorded_eq {label : Bytes} (h : (recorded label).2 = .ok (stored label)) :
    recorded label = ((recorded label).1, .ok (stored label)) := by
  rw [← h]

end Sample

theorem label_without_address_words :
    (Sample.recorded (str " Example.Net 5 ")).2 = .ok (Sample.stored (str " Example.Net 5 ")) ∧
      ∃ label, (Sample.stored (str " Example.Net 5 ")).isp = some label ∧
        Sample.stored (str " Example.Net 5 ") ∈
          (Sample.recorded (str " Example.Net 5 ")).1.results ∧ NoAddress label := by
  have hok : (Sample.recorded (str " Example.Net 5 ")).2 =
      .ok (Sample.stored (str " Example.Net 5 ")) := by
    decide
  exact ⟨hok, label_without_address insertionSort Sample.tables _
    (Sample.labelled (str " Example.Net 5 ")) Sample.now (.ok Sample.uuid) _ _
    (Sample.recorded_eq hok) rfl (by decide)⟩

/-- A label of two words, the second an address, is stored as it is. -/
theorem label_with_address :
    (Sample.recorded (str "ISP 192.0.2.1")).2 = .ok (Sample.stored (str "ISP 192.0.2.1")) ∧
      Sample.stored (str "ISP 192.0.2.1") ∈ (Sample.recorded (str "ISP 192.0.2.1")).1.results ∧
      (Sample.stored (str "ISP 192.0.2.1")).isp = some (str "ISP 192.0.2.1") ∧
      ¬NoAddress (str "ISP 192.0.2.1") := by
  refine ⟨?_, ?_, ?_, ?_⟩ <;> decide

end PilotTelemetry

end CloudHelp
