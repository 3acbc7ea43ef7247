import CloudHelp.KeyFiles
import CloudHelp.ManifestFiles
import CloudHelp.Issuer

/-!
# From the offline tools to the control plane

`cmd/manifest-keygen` and `cmd/manifest-key-policy` on the tree of files, and the part of `run` in
`cmd/control-plane` that reads what they left. The tools run in any order and any number, with
failures at any of their steps, and in between other programs may add files of their own. No run
of a tool takes away or changes a file that was there (`Run.toExtends`), so what a tool
once made is what the control plane finds.
-/

namespace CloudHelp.Provisioning

open FileTree SigningKey Manifest

variable (env : Environment) (rt : Runtime) (refusal : Bytes → Error)

/-- `os.Open`, and what a reader of the file gets. -/
def openFile (t : Files) (path : Bytes) : Except Error Reader :=
  match env.resolve t path with
  | none => .error .notExist
  | some i =>
      match t.nodes i with
      | some (.file data) =>
          if data.mode &&& 0o400 = 0 then .error (.library "permission denied")
          else .ok ⟨data.content, none⟩
      | _ => .ok ⟨[], some (.library "is a directory")⟩

/-! ## The policy tool -/

structure GrantInput where
  publicKeyPath : Bytes
  epoch : UInt64
  notBeforeVersion : UInt64
  notAfterVersion : UInt64

def GrantInput.fields : Fields GrantInput :=
  Fields.start GrantInput.mk
    |>.field (str "public_key_path") .text (by decide)
    |>.field (str "epoch") .uint64 (by decide)
    |>.field (str "not_before_version") .uint64 (by decide)
    |>.field (str "not_after_version") .uint64 (by decide)

def maxGrantFileBytes : ℕ := 32 * 1024

def ensureEOF (rest : Bytes) : Except Error Unit :=
  match rt.decodeAny rest with
  | .eof => .ok ()
  | .error e => .error e
  | .value => .error (.new "grants file contains multiple JSON values")

def loadGrantInputs (t : Files) (path : Bytes) : Except Error (List GrantInput) :=
  match openFile env t path with
  | .error e => .error (.wrap "open grants: %w" [] e)
  | .ok reader =>
      match reader.readAll (maxGrantFileBytes + 1) with
      | .error e => .error (.wrap "read grants: %w" [] e)
      | .ok data =>
          if data.length = 0 ∨ maxGrantFileBytes < data.length then
            .error (.new "grants file size is invalid")
          else match GrantInput.fields.decoder.list.decode refusal data with
            | .error e => .error (.wrap "decode grants: %w" [] e)
            | .ok (inputs, rest) =>
                match ensureEOF rt rest with
                | .error e => .error e
                | .ok () =>
                    if inputs.length = 0 ∨ 64 < inputs.length then
                      .error (.new "grants must contain between 1 and 64 entries")
                    else .ok inputs

def makeGrants (t : Files) : List GrantInput → Except Error (List KeyGrant)
  | [] => .ok []
  | input :: inputs =>
      match loadPublic env t input.publicKeyPath with
      | .error e => .error e
      | .ok key =>
          match newKeyGrant rt key input.epoch input.notBeforeVersion
              input.notAfterVersion with
          | .error e => .error e
          | .ok grant =>
              match makeGrants t inputs with
              | .error e => .error e
              | .ok grants => .ok (grant :: grants)

structure Flags where
  rootPrivate : Bytes
  grants : Bytes
  out : Bytes
  policyVersion : UInt64

def createError (t : Files) (path : Bytes) (faults : Faults) : Option Error :=
  match faults.create, env.slot t path with
  | some e, _ => some e
  | none, none => some (.library "cannot create")
  | none, some (d, n) =>
      if (t.entries d n).isSome then some (.library "file exists") else none

/-- `writePolicy` on the tree: the steps on the file are those of `writeExclusive`. -/
def writePolicy (t : Files) (path : Bytes) (policy : KeyPolicy) (faults : Faults) :
    Files × Except Error Bytes :=
  ((writeExclusive env t path (PolicyTool.encodePolicy policy) 0o644 faults).1,
    PolicyTool.writePolicy ⟨createError env t path faults, faults.write, faults.sync, faults.close⟩
      policy)

/-- What `main` of the policy tool signs, before it writes anything. -/
def signInputs (t : Files) (flags : Flags) : Except Error KeyPolicy :=
  if flags.rootPrivate = [] ∨ flags.grants = [] ∨ flags.out = [] ∨ flags.policyVersion = 0 then
    .error (.new "root-private, grants, out, and a positive policy-version are required")
  else match loadPrivate env rt t flags.rootPrivate with
    | .error e => .error e
    | .ok rootPrivateKey =>
        match loadGrantInputs env rt refusal t flags.grants with
        | .error e => .error e
        | .ok inputs =>
            match makeGrants env rt t inputs with
            | .error e => .error e
            | .ok grants => signKeyPolicy rt rootPrivateKey flags.policyVersion grants

/-- `main` of `cmd/manifest-key-policy` after its flags are parsed. -/
def keyPolicyTool (t : Files) (flags : Flags) (faults : Faults) : Files × Except Error KeyPolicy :=
  match signInputs env rt refusal t flags with
  | .error e => (t, .error e)
  | .ok policy =>
      ((writePolicy env t flags.out policy faults).1,
        (writePolicy env t flags.out policy faults).2.map fun _ => policy)

/-! ## The control plane's start -/

/-- The fields of `config.Config` that say where the manifest comes from. -/
structure Config where
  signingKeyPath : Bytes
  rootKeyPath : Bytes
  keyPolicyPath : Bytes
  catalogPath : Bytes
  issuerStatePath : Bytes
  manifestTTL : ℤ
  manifestCache : ℤ

/-- `run` up to `NewIssuer`; `closed` is the error of closing the policy's file. -/
def loadOptions (t : Files) (cfg : Config) (closed : Option Error) :
    Except Error Service.IssuerOptions :=
  match loadPrivate env rt t cfg.signingKeyPath with
  | .error e => .error e
  | .ok privateKey =>
      match loadPublic env t cfg.rootKeyPath with
      | .error e => .error e
      | .ok rootKey =>
          match openFile env t cfg.keyPolicyPath with
          | .error e => .error e
          | .ok policyFile =>
              match decodeKeyPolicy rt (KeyPolicy.fields.decoder.decode refusal)
                  policyFile with
              | .error e => .error e
              | .ok keyPolicy =>
                  match closed with
                  | some e => .error e
                  | none => .ok
                      { statePath := cfg.issuerStatePath
                        ttl := cfg.manifestTTL
                        cacheFor := cfg.manifestCache
                        privateKey := privateKey
                        rootKey := rootKey
                        keyPolicy := keyPolicy }

def loadCatalog (t : Files) (path : Bytes) : Except Error Catalog :=
  loadFile rt (Catalog.fields.decoder.decode refusal) (openFile env t path)

/-! ## Runs of the tools -/

inductive Command where
  | keygen (privatePath publicPath : Bytes) (outcomes : Outcomes)
  | keyPolicy (flags : Flags) (faults : Faults)

def Command.step (t : Files) : Command → Files
  | .keygen privatePath publicPath outcomes =>
      (generateFiles env rt t privatePath publicPath outcomes).1
  | .keyPolicy flags faults => (keyPolicyTool env rt refusal t flags faults).1

/-- A run of a tool, or another program that adds files and leaves the others alone. -/
inductive Step (t u : Files) : Prop where
  | command (c : Command) (h : u = c.step env rt refusal t)
  | other (h : Extends t u)

def Run : Files → Files → Prop := Relation.ReflTransGen (Step env rt refusal)

variable {env rt refusal} {t u : Files}

theorem extends_remove {path : Bytes} {d : ℕ} {n : Bytes} {data : FileData}
    (hslot : env.slot t path = some (d, n)) (hfree : t.entries d n = none)
    (hfiles : SameFiles (t.create d n data) u) (htree : SameTree (t.create d n data) u) :
    Extends t (remove env u path) := by
  obtain ⟨hsame, htree'⟩ := remove_created hslot hfree hfiles htree
  exact hsame.toExtends htree'.1

theorem extends_writeExclusive (t : Files) (path contents : Bytes) (mode : ℕ) (faults : Faults) :
    Extends t (writeExclusive env t path contents mode faults).1 := by
  rcases writeExclusive_cases env t path contents mode faults with
    ⟨u, e, hwrite, hfiles, htree⟩ | ⟨d, n, -, hfree, hwrite⟩
  · rw [hwrite]
    exact hfiles.toExtends htree.1
  · rw [hwrite]
    exact extends_create hfree _

/-- Also where the second file fails and the first is taken back. -/
theorem extends_writeKeys (t : Files) (privatePath publicPath : Bytes) (seed : Vector UInt8 32)
    (outcomes : Outcomes) :
    Extends t (writeKeys env rt t privatePath publicPath seed outcomes).1 := by
  unfold writeKeys
  rcases writeExclusive_cases env t privatePath (keyText (privateKey rt seed)) 0o600
    outcomes.privateFaults with ⟨u, error, hwrite, hfiles, htree⟩ | ⟨d, n, hslot, hfree, hwrite⟩
  · rw [hwrite]
    exact hfiles.toExtends htree.1
  · rw [hwrite]
    dsimp only
    rcases writeExclusive_cases env
      (t.create d n ⟨keyText (privateKey rt seed), 0o600 &&& env.keep⟩)
      publicPath (keyText (publicKey rt seed)) 0o644 outcomes.publicFaults with
      ⟨u, error, hpublic, hfiles, htree⟩ | ⟨e, m, -, hfree', hpublic⟩
    · rw [hpublic]
      exact extends_remove hslot hfree hfiles htree
    · rw [hpublic]
      exact (extends_create hfree _).trans (extends_create hfree' _)

theorem extends_ensureParent (t : Files) (path : Bytes) (mode : ℕ) (stat : Option Error) :
    Extends t (ensureParent env t path mode stat).1 := by
  obtain ⟨hfiles, hgrows⟩ := ensureParent_keeps env t path mode stat
  exact hfiles.toExtends hgrows

theorem extends_generateFiles (t : Files) (privatePath publicPath : Bytes) (outcomes : Outcomes) :
    Extends t (generateFiles env rt t privatePath publicPath outcomes).1 := by
  unfold generateFiles
  split_ifs
  · exact Extends.refl t
  · exact Extends.refl t
  · cases outcomes.seed with
    | error e => exact Extends.refl t
    | ok seed =>
        dsimp only
        obtain ⟨v, hv⟩ : ∃ v, ensureParent env t privatePath 0o700 outcomes.privateStat = v :=
          ⟨_, rfl⟩
        have hprivate : Extends t v.1 := hv ▸ extends_ensureParent t privatePath 0o700 _
        rw [hv]
        obtain ⟨v, _ | _⟩ := v
        · exact hprivate
        · dsimp only
          obtain ⟨w, hw⟩ : ∃ w, ensureParent env v publicPath 0o755 outcomes.publicStat = w :=
            ⟨_, rfl⟩
          have hpublic : Extends v w.1 := hw ▸ extends_ensureParent v publicPath 0o755 _
          rw [hw]
          obtain ⟨w, _ | _⟩ := w
          · exact hprivate.trans hpublic
          · exact (hprivate.trans hpublic).trans (extends_writeKeys w _ _ _ _)

theorem extends_keyPolicyTool (t : Files) (flags : Flags) (faults : Faults) :
    Extends t (keyPolicyTool env rt refusal t flags faults).1 := by
  unfold keyPolicyTool
  cases signInputs env rt refusal t flags with
  | error e => exact Extends.refl t
  | ok policy => exact extends_writeExclusive t flags.out _ _ faults

theorem Step.toExtends (h : Step env rt refusal t u) : Extends t u := by
  cases h with
  | command c h =>
      subst h
      cases c with
      | keygen privatePath publicPath outcomes => exact extends_generateFiles t _ _ _
      | keyPolicy flags faults => exact extends_keyPolicyTool t flags faults
  | other h => exact h

/-- Whatever the tools do and wherever they fail, nothing that was there is lost. -/
theorem Run.toExtends (h : Run env rt refusal t u) : Extends t u := by
  induction h with
  | refl => exact Extends.refl t
  | tail _ hstep ih => exact ih.trans hstep.toExtends

/-! ## What the tools leave -/

/-- The path names a file with this content and mode, and not by a link. -/
def Holds (env : Environment) (t : Files) (path : Bytes) (data : FileData) : Prop :=
  ∃ d n i, env.slot t path = some (d, n) ∧ t.entries d n = some i ∧ t.nodes i = some (.file data)

namespace Holds

variable {path : Bytes} {data : FileData}

theorem of_extends (h : Holds env t path data) (hextends : Extends t u) :
    Holds env u path data := by
  obtain ⟨d, n, i, hslot, hentry, hnode⟩ := h
  have hfile : t.isDirectory i = false := by
    unfold isDirectory
    rw [hnode]
  obtain ⟨hentry', hnode'⟩ := hextends.files d n i ⟨(slot_eq_some.mp hslot).2.2, hentry, hfile⟩
  exact ⟨d, n, i, slot_mono hextends.grows hslot, hentry', hnode'.trans hnode⟩

theorem resolve (h : Holds env t path data) :
    ∃ i, env.resolve t path = some i ∧ t.nodes i = some (.file data) := by
  obtain ⟨d, n, i, hslot, hentry, hnode⟩ := h
  exact ⟨i, resolve_file hslot hentry hnode, hnode⟩

theorem openFile (h : Holds env t path data) (hread : data.mode &&& 0o400 ≠ 0) :
    Provisioning.openFile env t path = .ok ⟨data.content, none⟩ := by
  obtain ⟨i, hresolve, hnode⟩ := h.resolve
  simp only [Provisioning.openFile, hresolve, hnode, if_neg hread]

theorem loadPrivate {seed : Vector UInt8 32}
    (h : Holds env t path ⟨keyText (privateKey rt seed), 0o600 &&& env.keep⟩)
    (hseed : SeedFirst rt) (hkeep : env.keep &&& 0o600 = 0o600) :
    SigningKey.loadPrivate env rt t path = .ok (privateKey rt seed) := by
  obtain ⟨i, hresolve, hnode⟩ := h.resolve
  have hlen := length_privateKey rt seed
  have hsize := length_keyText (privateKey rt seed)
  rw [hlen] at hsize
  have hfresh : (rt.newKeyFromSeed ((privateKey rt seed).take 32)).toList = privateKey rt seed := by
    rw [hseed seed]
    rfl
  unfold SigningKey.loadPrivate
  rw [openRegular_eq_ok hresolve hnode (owner_can_read hkeep rfl)]
  dsimp only
  rw [if_neg (not_not_intro (private_to_owner env.keep)), if_neg (by rw [hsize]; decide),
    decode_keyText (by omega)]
  dsimp only
  rw [if_neg (by omega), if_pos hlen, if_neg (not_not_intro hfresh)]

theorem loadPublic {seed : Vector UInt8 32}
    (h : Holds env t path ⟨keyText (publicKey rt seed), 0o644 &&& env.keep⟩)
    (hkeep : env.keep &&& 0o600 = 0o600) :
    SigningKey.loadPublic env t path = .ok (publicKey rt seed) := by
  obtain ⟨i, hresolve, hnode⟩ := h.resolve
  have hlen := length_publicKey rt seed
  have hsize := length_keyText (publicKey rt seed)
  rw [hlen] at hsize
  unfold SigningKey.loadPublic
  rw [openRegular_eq_ok hresolve hnode (owner_can_read hkeep rfl)]
  dsimp only
  rw [if_neg (by rw [hsize]; decide), decode_keyText (by omega)]
  dsimp only
  rw [if_neg (not_not_intro hlen)]

end Holds

/-- A key generation that succeeds leaves the two halves of one key. -/
theorem holds_of_generateFiles {privatePath publicPath key : Bytes} {outcomes : Outcomes}
    (h : generateFiles env rt t privatePath publicPath outcomes = (u, .ok key)) :
    ∃ seed, key = publicKey rt seed ∧
      Holds env u privatePath ⟨keyText (privateKey rt seed), 0o600 &&& env.keep⟩ ∧
      Holds env u publicPath ⟨keyText (publicKey rt seed), 0o644 &&& env.keep⟩ := by
  rcases generateFiles_cases env rt t privatePath publicPath outcomes with
    ⟨v, error, hgenerate, -⟩ | ⟨made, v, seed, d, e, n, m, hgenerate, -, -, hmade⟩
  · rw [hgenerate] at h
    cases h
  · rw [hgenerate] at h
    cases h
    refine ⟨seed, rfl, ⟨d, n, made.next, hmade.slots.1, ?_, hmade.privateFile.2⟩,
      ⟨e, m, made.next + 1, hmade.slots.2, ?_, hmade.publicFile.2⟩⟩
    · rw [hmade.after,
        entries_create_of_ne fun hslot => hmade.distinct ⟨hslot.1.symm, hslot.2.symm⟩,
        entries_create_self]
    · rw [hmade.after]
      exact entries_create_self

/-- A policy that was written is at its path. -/
theorem holds_of_writePolicy {path text : Bytes} {policy : KeyPolicy} {faults : Faults}
    (h : (writePolicy env t path policy faults).2 = .ok text) :
    Holds env (writePolicy env t path policy faults).1 path
      ⟨PolicyTool.encodePolicy policy, 0o644 &&& env.keep⟩ := by
  simp only [writePolicy, PolicyTool.writePolicy, createError] at h ⊢
  unfold writeExclusive
  cases hcreate : faults.create with
  | some e => simp [hcreate] at h
  | none =>
      cases hslot : env.slot t path with
      | none => simp [hcreate, hslot] at h
      | some s =>
          obtain ⟨d, n⟩ := s
          by_cases htaken : (t.entries d n).isSome = true
          · simp [hcreate, hslot, htaken] at h
          · have hfree : t.entries d n = none := by simpa using htaken
            cases hwrite : faults.write with
            | some e => simp [hcreate, hslot, htaken, hwrite] at h
            | none =>
                cases hsync : faults.sync with
                | some e => simp [hcreate, hslot, htaken, hwrite, hsync] at h
                | none =>
                    cases hclose : faults.close with
                    | some e => simp [hcreate, hslot, htaken, hwrite, hsync, hclose] at h
                    | none =>
                        simp only [htaken, setData_create]
                        refine ⟨d, n, t.next, ?_, entries_create_self, nodes_create_self⟩
                        exact slot_mono (sameTree_create hfree _).1 hslot

theorem newGrants_of_makeGrants {inputs : List GrantInput} {grants : List KeyGrant}
    (h : makeGrants env rt t inputs = .ok grants) :
    ∀ g ∈ grants, PolicyTool.NewGrant rt g := by
  induction inputs generalizing grants with
  | nil =>
      obtain rfl := Except.ok.inj h
      intro g hg
      cases hg
  | cons input inputs ih =>
      rw [makeGrants] at h
      cases hkey : SigningKey.loadPublic env t input.publicKeyPath with
      | error e => simp [hkey] at h
      | ok key =>
          cases hgrant : newKeyGrant rt key input.epoch input.notBeforeVersion
              input.notAfterVersion with
          | error e => simp [hkey, hgrant] at h
          | ok grant =>
              cases hrest : makeGrants env rt t inputs with
              | error e => simp [hkey, hgrant, hrest] at h
              | ok rest =>
                  simp only [hkey, hgrant, hrest, Except.ok.injEq] at h
                  subst h
                  intro g hg
                  obtain rfl | hg := List.mem_cons.mp hg
                  · exact ⟨key, _, _, _, hgrant⟩
                  · exact ih hrest g hg

theorem signInputs_eq_ok {flags : Flags} {policy : KeyPolicy}
    (h : signInputs env rt refusal t flags = .ok policy) :
    ∃ root grants, SigningKey.loadPrivate env rt t flags.rootPrivate = .ok root ∧
      (∀ g ∈ grants, PolicyTool.NewGrant rt g) ∧
      signKeyPolicy rt root flags.policyVersion grants = .ok policy := by
  unfold signInputs at h
  split_ifs at h
  cases hroot : SigningKey.loadPrivate env rt t flags.rootPrivate with
  | error e => simp [hroot] at h
  | ok root =>
      cases hinputs : loadGrantInputs env rt refusal t flags.grants with
      | error e => simp [hroot, hinputs] at h
      | ok inputs =>
          cases hgrants : makeGrants env rt t inputs with
          | error e => simp [hroot, hinputs, hgrants] at h
          | ok grants =>
              simp only [hroot, hinputs, hgrants] at h
              exact ⟨root, grants, rfl, newGrants_of_makeGrants hgrants, h⟩

theorem keyPolicyTool_eq_ok {flags : Flags} {faults : Faults} {policy : KeyPolicy}
    (h : keyPolicyTool env rt refusal t flags faults = (u, .ok policy)) :
    signInputs env rt refusal t flags = .ok policy ∧
      Holds env u flags.out ⟨PolicyTool.encodePolicy policy, 0o644 &&& env.keep⟩ := by
  unfold keyPolicyTool at h
  cases hsign : signInputs env rt refusal t flags with
  | error e => simp [hsign] at h
  | ok signed =>
      simp only [hsign, Prod.mk.injEq] at h
      obtain ⟨rfl, hresult⟩ := h
      cases hwrite : (writePolicy env t flags.out signed faults).2 with
      | error e => simp [hwrite, Except.map] at hresult
      | ok text =>
          rw [hwrite] at hresult
          obtain rfl : signed = policy := Except.ok.inj hresult
          exact ⟨rfl, holds_of_writePolicy hwrite⟩

/-! ## What the control plane finds -/

theorem valid_privateKey (hseed : SeedFirst rt) (seed : Vector UInt8 32) :
    validEd25519PrivateKey rt (privateKey rt seed) = true := by
  refine decide_eq_true ⟨length_privateKey rt seed, ?_⟩
  rw [show seedSize = 32 from rfl, hseed seed]
  rfl

/-- The root's key, a signing key and a policy made with the root's key are found by the control
plane as they were made, whatever the tools did in between and afterwards. Under the policy the
signing key issues what the checks of `Issue` allow, and clients with the root's public key take
it. -/
theorem provisioned_control_plane {base : Runtime} (hjson : rt = base.withJson refusal)
    (hseed : SeedFirst rt) (hkeep : env.keep &&& 0o600 = 0o600) (hsign : rt.VerifiesSigned)
    {t₀ t₁ s₀ s₁ p₀ p₁ : Files}
    {rootPrivate rootPublic signingPrivate signingPublic rootKey signingKey : Bytes}
    {rootOutcomes signingOutcomes : Outcomes} {flags : Flags} {faults : Faults} {policy : KeyPolicy}
    (hroot : generateFiles env rt t₀ rootPrivate rootPublic rootOutcomes = (t₁, .ok rootKey))
    (hsigning : generateFiles env rt s₀ signingPrivate signingPublic signingOutcomes =
      (s₁, .ok signingKey))
    (htool : keyPolicyTool env rt refusal p₀ flags faults = (p₁, .ok policy))
    (hflags : flags.rootPrivate = rootPrivate) (hbefore : Run env rt refusal t₁ p₀)
    (hafter : Run env rt refusal p₁ t) (hlater : Run env rt refusal s₁ t) {cfg : Config}
    (hcfg : cfg.signingKeyPath = signingPrivate ∧ cfg.rootKeyPath = rootPublic ∧
      cfg.keyPolicyPath = flags.out) :
    ∃ privateKey, Manifest.publicKey privateKey = signingKey ∧
      loadOptions env rt refusal t cfg none =
        .ok ⟨cfg.issuerStatePath, cfg.manifestTTL, cfg.manifestCache, privateKey, rootKey, policy⟩ ∧
      (Duration.minute ≤ cfg.manifestTTL → cfg.manifestTTL ≤ Duration.hour →
        Duration.second ≤ cfg.manifestCache → cfg.manifestCache ≤ cfg.manifestTTL / 2 →
          ∃ digest, Service.checkOptions rt ⟨cfg.issuerStatePath, cfg.manifestTTL,
            cfg.manifestCache, privateKey, rootKey, policy⟩ = .ok digest) ∧
      ∀ catalog v now, loadCatalog env rt refusal t cfg.catalogPath = .ok catalog → v ≠ 0 →
        Authorized policy (keyID rt signingKey) v →
          ((∃ envelope, issue rt catalog v policy rootKey now cfg.manifestTTL
              privateKey = .ok envelope) ↔
            Publishable rt catalog v policy now cfg.manifestTTL) ∧
          (rt.CollisionFreeOn (insert signingKey (policyKeys policy)) →
            ∀ envelope, issue rt catalog v policy rootKey now cfg.manifestTTL
                privateKey = .ok envelope →
              decodeEnvelope rt ⟨encodeEnvelope envelope, none⟩ = .ok envelope ∧
              ∃ document, CanonicalContent catalog document ∧ document.version = v ∧
                ∀ clock, document.issuedAt - allowedClockSkew ≤ clock ∧
                  clock < document.expiresAt →
                    (verify rt envelope rootKey clock .empty).1 =
                      .ok document) := by
  obtain ⟨rootSeed, rfl, hrootPrivate, hrootPublic⟩ := holds_of_generateFiles hroot
  obtain ⟨signingSeed, rfl, hprivate, -⟩ := holds_of_generateFiles hsigning
  obtain ⟨hsigned, hpolicyFile⟩ := keyPolicyTool_eq_ok htool
  obtain ⟨root, grants, hload, hnew, hpolicy⟩ := signInputs_eq_ok hsigned
  -- the tool has loaded the key that was generated
  rw [hflags, (hrootPrivate.of_extends hbefore.toExtends).loadPrivate hseed hkeep] at hload
  obtain rfl := Except.ok.inj hload
  obtain ⟨signature, hs⟩ := PolicyTool.signedBy_of_sign hsign hpolicy
  have hsize := PolicyTool.length_encodePolicy_le hnew hpolicy
  have hdigest : validateKeyPolicy rt policy (publicKey rt rootSeed) =
      .ok (rt.digest (canonicalPolicyText rt policy)) :=
    validateKeyPolicy_eq_ok.mpr ⟨⟨signature, hs⟩, rfl⟩
  have hwritten : Extends p₀ (keyPolicyTool env rt refusal p₀ flags faults).1 :=
    extends_keyPolicyTool p₀ flags faults
  rw [htool] at hwritten
  have htotal : Extends t₁ t := (hbefore.toExtends.trans hwritten).trans hafter.toExtends
  have hprivateKey := (hprivate.of_extends hlater.toExtends).loadPrivate hseed hkeep
  have hpublicKey := (hrootPublic.of_extends htotal).loadPublic hkeep
  have hopen := (hpolicyFile.of_extends hafter.toExtends).openFile (owner_can_read hkeep rfl)
  refine ⟨privateKey rt signingSeed, rfl, ?_, ?_, ?_⟩
  · subst hjson
    simp only [loadOptions, hcfg, hprivateKey, hpublicKey, hopen,
      decodeKeyPolicy_written base refusal hs.utf8 hsize]
  · intro hminute hhour hsecond hhalf
    have hlength : (privateKey rt signingSeed).length = privateKeySize :=
      length_privateKey rt signingSeed
    refine ⟨rt.digest (canonicalPolicyText rt policy), ?_⟩
    simp only [Service.checkOptions, hlength, ne_eq, not_true, if_false, hdigest]
    rw [if_neg (by omega), if_neg (by omega)]
  · intro catalog v now hcatalog hv hgrant
    have hutf8 : catalog.Utf8 := by
      obtain ⟨reader, data, -, -, -, hdecode⟩ := loadFile_eq_ok.mp hcatalog
      exact always_of_decodeStrict Catalog.always_utf8 hdecode
    have hissue := PolicyTool.issue_iff_issuable hs hv hgrant catalog now cfg.manifestTTL
    refine ⟨hissue.trans ⟨Issuable.toPublishable, fun h => ⟨h, valid_privateKey hseed _⟩⟩, ?_⟩
    intro hcollision envelope henvelope
    subst hjson
    obtain ⟨-, hdecode, document, hverify, -, -, hcontent, hversion, -⟩ :=
      issue_verify (readsDocuments_withJson base refusal) (readsEnvelopes_withJson base refusal)
        hsign hutf8 hcollision henvelope
    exact ⟨hdecode, document, hcontent, hversion, fun clock => (hverify clock).1⟩

namespace Sample

open SigningKey.Sample (environment noFaults tree)

def refused (_ : Bytes) : Error := .library "invalid character"

def runtime : Runtime := Manifest.Sample.decoding

def seeded (seed : UInt8) : Outcomes :=
  ⟨.ok (Vector.replicate 32 seed), none, none, noFaults, noFaults⟩

def withRoot : Files × Except Error Bytes :=
  generateFiles environment runtime tree (str "/root") (str "/root.pub") (seeded 9)

def withSigning : Files × Except Error Bytes :=
  generateFiles environment runtime withRoot.1 (str "/sign") (str "/l/sign.pub") (seeded 7)

/-- One grant for all versions: a name is in capitals, a member comes twice, and one is left out. -/
def grantsText : Bytes :=
  str "[ \x7b\"PUBLIC_KEY_PATH\": \"/sign\\u002epub\", \"epoch\":2,\"epoch\" :1,
    \"Not_Before_Version\":1\x7d]"

def withGrants : Files := withSigning.1.create 0 (str "grants") ⟨grantsText, 0o644⟩

def flags : Flags := ⟨str "/root", str "/grants", str "/policy", 1⟩

def withPolicy : Files × Except Error KeyPolicy :=
  keyPolicyTool environment runtime refused withGrants flags noFaults

def cfg : Config :=
  ⟨str "/sign", str "/root.pub", str "/policy", str "/catalog", str "/state", Duration.hour,
    Duration.minute⟩

theorem seedFirst_runtime : SeedFirst runtime := SigningKey.Sample.seedFirst_toy

theorem verifiesSigned_runtime : runtime.VerifiesSigned := fun _ _ _ => decide_eq_true rfl

theorem free_grants : withSigning.1.entries 0 (str "grants") = none := by decide

theorem run_withGrants : Run environment runtime refused withSigning.1 withGrants :=
  Relation.ReflTransGen.single (Step.other (extends_create free_grants _))

theorem run_withSigning : Run environment runtime refused withRoot.1 withSigning.1 :=
  Relation.ReflTransGen.single
    (Step.command (.keygen (str "/sign") (str "/l/sign.pub") (seeded 7)) rfl)

theorem run_withPolicy : Run environment runtime refused withGrants withPolicy.1 :=
  Relation.ReflTransGen.single (Step.command (.keyPolicy flags noFaults) rfl)

theorem ok_withRoot : ∃ key, withRoot = (withRoot.1, .ok key) := by
  have hok : withRoot.2.isOk = true := by decide
  obtain ⟨key, hkey⟩ := exists_of_isOk hok
  exact ⟨key, Prod.ext rfl hkey⟩

theorem ok_withSigning : ∃ key, withSigning = (withSigning.1, .ok key) := by
  have hok : withSigning.2.isOk = true := by decide
  obtain ⟨key, hkey⟩ := exists_of_isOk hok
  exact ⟨key, Prod.ext rfl hkey⟩

theorem ok_withPolicy : ∃ policy, withPolicy = (withPolicy.1, .ok policy) := by
  have hok : withPolicy.2.isOk = true := by decide
  obtain ⟨policy, hpolicy⟩ := exists_of_isOk hok
  exact ⟨policy, Prod.ext rfl hpolicy⟩

end Sample

theorem provisioned_control_plane_sample :
    ∃ rootKey policy privateKey, Sample.withRoot = (Sample.withRoot.1, .ok rootKey) ∧
      Sample.withPolicy = (Sample.withPolicy.1, .ok policy) ∧
      loadOptions SigningKey.Sample.environment Sample.runtime Sample.refused Sample.withPolicy.1
        Sample.cfg none = .ok ⟨str "/state", Duration.hour, Duration.minute, privateKey, rootKey,
          policy⟩ := by
  obtain ⟨rootKey, hroot⟩ := Sample.ok_withRoot
  obtain ⟨signingKey, hsigning⟩ := Sample.ok_withSigning
  obtain ⟨policy, hpolicy⟩ := Sample.ok_withPolicy
  have hcfg : Sample.cfg.signingKeyPath = str "/sign" ∧ Sample.cfg.rootKeyPath = str "/root.pub" ∧
      Sample.cfg.keyPolicyPath = Sample.flags.out := ⟨rfl, rfl, rfl⟩
  obtain ⟨privateKey, -, hload, -⟩ := provisioned_control_plane rfl Sample.seedFirst_runtime rfl
    Sample.verifiesSigned_runtime hroot hsigning hpolicy rfl
    (Sample.run_withSigning.trans Sample.run_withGrants) Relation.ReflTransGen.refl
    (Sample.run_withGrants.trans Sample.run_withPolicy) hcfg
  exact ⟨rootKey, policy, privateKey, hroot, hpolicy, hload⟩

end CloudHelp.Provisioning
