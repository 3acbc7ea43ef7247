import CloudHelp.SigningKey

/-!
# Key generation is all or nothing

Whatever steps fail, `GenerateFiles` either leaves the files that were there, or two new files
that the loaders read back as one key pair. Exclusive creation needs a free name in the directory
the path leads to, and a file made there is no part of any way to a directory; so the clean-up,
which goes by path, finds the very name that was created. Two paths that mean one place cannot
both be created, however they are spelled.
-/

namespace CloudHelp.SigningKey

open FileTree

variable {env : Environment} {t u : Files} {path : Bytes} {d : ℕ} {n : Bytes}

/-! ## Exclusive writes -/

/-- The clean-up of a path finds the file created there and leaves what was there before. -/
theorem remove_created {data : FileData} (hslot : env.slot t path = some (d, n))
    (hfree : t.entries d n = none) (hfiles : SameFiles (t.create d n data) u)
    (htree : SameTree (t.create d n data) u) :
    SameFiles t (remove env u path) ∧ SameTree t (remove env u path) := by
  have hd : t.isDirectory d = true := (slot_eq_some.mp hslot).2.2
  have hname : (t.create d n data).FileName d n t.next :=
    (fileName_create data hd hfree).mpr (.inl ⟨rfl, rfl, rfl⟩)
  have hname' := (hfiles.names _ _ _).mp hname
  have hnode : u.nodes t.next = some (.file data) := by
    rw [hfiles.nodes _ _ _ hname, nodes_create_self]
  have hslot' : env.slot u path = some (d, n) := by
    rw [← hslot]
    exact ((sameTree_create hfree data).trans htree).slot_eq env.links _
  have hremove : remove env u path = u.unlink d n := by
    unfold remove
    rw [hslot']
    dsimp only
    rw [hname'.2.1]
    dsimp only
    rw [if_neg (by simp [hname'.2.2])]
  have hfile : ¬u.Inner t.next := by
    rintro (hdir | ⟨absolute, target, hlink⟩)
    · rw [hname'.2.2] at hdir
      cases hdir
    · rw [hnode] at hlink
      cases hlink
  rw [hremove]
  exact ⟨sameFiles_unlink_create hd hfree hfiles,
    ((sameTree_create hfree data).trans htree).trans (sameTree_unlink hname' hfile)⟩

theorem sameTree_refl (t : Files) : SameTree t t := ⟨Grows.refl t, Grows.refl t⟩

/-- `writeExclusive` fails and leaves every file as it was, or it makes one new file under a free
name. -/
theorem writeExclusive_cases (env : Environment) (t : Files) (path contents : Bytes) (mode : ℕ)
    (faults : Faults) :
    (∃ u e, writeExclusive env t path contents mode faults = (u, .error e) ∧ SameFiles t u ∧
      SameTree t u) ∨
    ∃ d n, env.slot t path = some (d, n) ∧ t.entries d n = none ∧
      writeExclusive env t path contents mode faults =
        (t.create d n ⟨contents, mode &&& env.keep⟩, .ok ()) := by
  have hnothing : SameFiles t t ∧ SameTree t t := ⟨SameFiles.refl t, sameTree_refl t⟩
  unfold writeExclusive
  cases hcreate : faults.create with
  | some e => exact .inl ⟨t, e, rfl, hnothing⟩
  | none =>
      cases hslot : env.slot t path with
      | none => exact .inl ⟨t, _, rfl, hnothing⟩
      | some s =>
          obtain ⟨d, n⟩ := s
          dsimp only
          by_cases htaken : (t.entries d n).isSome = true
          · rw [if_pos htaken]
            exact .inl ⟨t, _, rfl, hnothing⟩
          · have hfree : t.entries d n = none := by simpa using htaken
            have hcleanup : ∀ data, SameFiles t (remove env (t.create d n data) path) ∧
                SameTree t (remove env (t.create d n data) path) := fun data =>
              remove_created hslot hfree (SameFiles.refl _) (sameTree_refl _)
            rw [if_neg htaken, setData_create, setData_create]
            cases hwrite : faults.write with
            | some e => exact .inl ⟨_, e, rfl, hcleanup _⟩
            | none =>
                cases hsync : faults.sync with
                | some e => exact .inl ⟨_, e, rfl, hcleanup _⟩
                | none =>
                    cases hclose : faults.close with
                    | some e => exact .inl ⟨_, e, rfl, hcleanup _⟩
                    | none => exact .inr ⟨d, n, rfl, hfree, rfl⟩

/-! ## The two files -/

/-- What is left when both files are made: two different new names. -/
structure Made (env : Environment) (rt : Runtime) (t u : Files) (privatePath publicPath : Bytes)
    (seed : Vector UInt8 32) (d e : ℕ) (n m : Bytes) : Prop where
  privateSlot : env.slot t privatePath = some (d, n)
  privateFree : t.entries d n = none
  publicSlot : env.slot t publicPath = some (e, m)
  publicFree : t.entries e m = none
  distinct : ¬(e = d ∧ m = n)
  after : u = (t.create d n ⟨keyText (privateKey rt seed), 0o600 &&& env.keep⟩).create e m
    ⟨keyText (publicKey rt seed), 0o644 &&& env.keep⟩

theorem writeKeys_cases (env : Environment) (rt : Runtime) (t : Files)
    (privatePath publicPath : Bytes) (seed : Vector UInt8 32) (outcomes : Outcomes) :
    (∃ u error, writeKeys env rt t privatePath publicPath seed outcomes = (u, .error error) ∧
      SameFiles t u) ∨
    ∃ u d e n m, writeKeys env rt t privatePath publicPath seed outcomes =
      (u, .ok (publicKey rt seed)) ∧ Made env rt t u privatePath publicPath seed d e n m := by
  unfold writeKeys
  rcases writeExclusive_cases env t privatePath (keyText (privateKey rt seed)) 0o600
    outcomes.privateFaults with ⟨u, error, hwrite, hfiles, -⟩ | ⟨d, n, hslot, hfree, hwrite⟩
  · rw [hwrite]
    exact .inl ⟨u, _, rfl, hfiles⟩
  · rw [hwrite]
    dsimp only
    rcases writeExclusive_cases env
      (t.create d n ⟨keyText (privateKey rt seed), 0o600 &&& env.keep⟩)
      publicPath (keyText (publicKey rt seed)) 0o644 outcomes.publicFaults with
      ⟨u, error, hpublic, hfiles, htree⟩ | ⟨e, m, hslot', hfree', hpublic⟩
    · rw [hpublic]
      exact .inl ⟨_, _, rfl, (remove_created hslot hfree hfiles htree).1⟩
    · -- the private file is there by now, so its name is not free
      have hdistinct : ¬(e = d ∧ m = n) := by
        rintro ⟨rfl, rfl⟩
        rw [entries_create_self] at hfree'
        cases hfree'
      rw [hpublic]
      refine .inr ⟨_, d, e, n, m, rfl, ⟨hslot, hfree, ?_, ?_, hdistinct, rfl⟩⟩
      · rw [← hslot']
        exact ((sameTree_create hfree _).slot_eq env.links _).symm
      · rwa [entries_create_of_ne hdistinct] at hfree'

theorem ensureParent_keeps (env : Environment) (t : Files) (path : Bytes) (mode : ℕ)
    (stat : Option Error) :
    SameFiles t (ensureParent env t path mode stat).1 ∧
      Grows t (ensureParent env t path mode stat).1 := by
  have hmade : (ensureParent env t path mode stat).1 = (env.mkdirAll t (env.dir path) mode).1 := by
    unfold ensureParent
    dsimp only
    split
    · rfl
    · rfl
    · split
      · rfl
      · split
        · split_ifs <;> rfl
        · rfl
  rw [hmade]
  exact ⟨env.mkdirAll_files _ _ _, env.mkdirAll_grows _ _ _⟩

/-- `GenerateFiles` fails with the files as they were, or makes both files in a tree that has only
gained directories. -/
theorem generateFiles_cases (env : Environment) (rt : Runtime) (t : Files)
    (privatePath publicPath : Bytes) (outcomes : Outcomes) :
    (∃ u error, generateFiles env rt t privatePath publicPath outcomes = (u, .error error) ∧
      SameFiles t u) ∨
    ∃ made u seed d e n m, generateFiles env rt t privatePath publicPath outcomes =
      (u, .ok (publicKey rt seed)) ∧ SameFiles t made ∧ Grows t made ∧
      Made env rt made u privatePath publicPath seed d e n m := by
  unfold generateFiles
  by_cases hempty : privatePath = [] ∨ publicPath = []
  · rw [if_pos hempty]
    exact .inl ⟨t, _, rfl, SameFiles.refl t⟩
  · rw [if_neg hempty]
    by_cases hclean : env.clean privatePath = env.clean publicPath
    · rw [if_pos hclean]
      exact .inl ⟨t, _, rfl, SameFiles.refl t⟩
    · rw [if_neg hclean]
      cases hseed : outcomes.seed with
      | error error => exact .inl ⟨t, _, rfl, SameFiles.refl t⟩
      | ok seed =>
          dsimp only
          obtain ⟨hfiles, hgrows⟩ := ensureParent_keeps env t privatePath 0o700 outcomes.privateStat
          rcases hprivate : ensureParent env t privatePath 0o700 outcomes.privateStat with
            ⟨v, answer⟩
          rw [hprivate] at hfiles hgrows
          cases answer with
          | error error => exact .inl ⟨v, error, rfl, hfiles⟩
          | ok done =>
              dsimp only
              obtain ⟨hfiles', hgrows'⟩ :=
                ensureParent_keeps env v publicPath 0o755 outcomes.publicStat
              rcases hpublic : ensureParent env v publicPath 0o755 outcomes.publicStat with
                ⟨w, answer⟩
              rw [hpublic] at hfiles' hgrows'
              cases answer with
              | error error => exact .inl ⟨w, error, rfl, hfiles.trans hfiles'⟩
              | ok done =>
                  rcases writeKeys_cases env rt w privatePath publicPath seed outcomes with
                    ⟨u, error, hkeys, hsame⟩ | ⟨u, d, e, n, m, hkeys, hmade⟩
                  · exact .inl ⟨u, error, hkeys, (hfiles.trans hfiles').trans hsame⟩
                  · exact .inr ⟨w, u, seed, d, e, n, m, hkeys, hfiles.trans hfiles',
                      hgrows.trans hgrows', hmade⟩

/-! ## Reading a key back -/

theorem encodeChar_plain : ∀ k < 64, (Base64Url.encodeChar k).toNat < 128 ∧
    (Utf8.Piece.rune [Base64Url.encodeChar k]).isSpace = false := by decide

theorem encodeToString_plain {s : Bytes} {c : UInt8} (h : c ∈ Base64Url.encodeToString s) :
    c.toNat < 128 ∧ (Utf8.Piece.rune [c]).isSpace = false := by
  obtain ⟨k, hk, rfl⟩ := List.mem_map.mp h
  exact encodeChar_plain k (Base64Url.sextets_lt s k hk)

/-- The newline behind the text is all that `TrimSpace` takes. -/
theorem trimSpace_keyText {key : Bytes} (h : Base64Url.encodeToString key ≠ []) :
    Utf8.trimSpace (keyText key) = Base64Url.encodeToString key := by
  have hpieces : Utf8.pieces (keyText key) =
      (Base64Url.encodeToString key).map (fun c => .rune [c]) ++ [.rune [10]] := by
    rw [keyText, Utf8.pieces_of_ascii, List.map_append]
    · rfl
    · intro c hc
      rcases List.mem_append.mp hc with hc | hc
      · exact (encodeToString_plain hc).1
      · rw [List.mem_singleton.mp hc]
        decide
  have hplain : ∀ p ∈ (Base64Url.encodeToString key).map (fun c => Utf8.Piece.rune [c]),
      p.isSpace = false := by
    intro p hp
    obtain ⟨c, hc, rfl⟩ := List.mem_map.mp hp
    exact (encodeToString_plain hc).2
  have htrim : trim Utf8.Piece.isSpace (Utf8.pieces (keyText key)) =
      (Base64Url.encodeToString key).map fun c => .rune [c] := by
    rw [hpieces, trim]
    cases hmap : (Base64Url.encodeToString key).map (fun c => Utf8.Piece.rune [c]) with
    | nil => exact absurd (List.map_eq_nil_iff.mp hmap) h
    | cons p rest =>
        rw [hmap] at hplain
        rw [List.cons_append, List.dropWhile_cons_of_neg (by simp [hplain p List.mem_cons_self]),
          ← List.cons_append, List.rdropWhile_concat_pos _ _ _ (by decide),
          List.rdropWhile_eq_self_iff]
        intro hne
        simp [hplain _ (List.getLast_mem hne)]
  rw [Utf8.trimSpace, htrim, List.flatMap_map]
  simp [Utf8.Piece.bytes]

theorem encodeToString_ne_nil {key : Bytes} (h : 1 < key.length) :
    Base64Url.encodeToString key ≠ [] := by
  intro hnil
  have hlen := Base64Url.length_encodeToString key
  rw [hnil, Base64Url.encodedLen] at hlen
  simp only [List.length_nil] at hlen
  omega

theorem decode_keyText {key : Bytes} (h : 1 < key.length) :
    Base64Url.decodeString (Utf8.trimSpace (keyText key)) = some key := by
  rw [trimSpace_keyText (encodeToString_ne_nil h), Base64Url.decodeString_encodeToString]

theorem length_keyText (key : Bytes) :
    (keyText key).length = Base64Url.encodedLen key.length + 1 := by
  rw [keyText, List.length_append, Base64Url.length_encodeToString]
  rfl

theorem length_privateKey (rt : Runtime) (seed : Vector UInt8 32) :
    (privateKey rt seed).length = 64 := Vector.length_toList

theorem length_publicKey (rt : Runtime) (seed : Vector UInt8 32) :
    (publicKey rt seed).length = 32 := by
  rw [publicKey, List.length_drop, length_privateKey]

/-! ## What is loaded -/

/-- `ed25519`: a private key starts with its seed. -/
def SeedFirst (rt : Runtime) : Prop :=
  ∀ seed : Vector UInt8 32, (privateKey rt seed).take 32 = seed.toList

theorem owner_can_read {keep : ℕ} (h : keep &&& 0o600 = 0o600) {mode : ℕ}
    (hmode : mode &&& 0o400 = 0o400) : (mode &&& keep) &&& 0o400 ≠ 0 := by
  have hkeep : keep &&& 0o400 = 0o400 := by
    calc keep &&& 0o400 = keep &&& (0o600 &&& 0o400) := rfl
      _ = (keep &&& 0o600) &&& 0o400 := (Nat.land_assoc _ _ _).symm
      _ = 0o600 &&& 0o400 := by rw [h]
  rw [Nat.land_assoc, hkeep, hmode]
  decide

theorem private_to_owner (keep : ℕ) : (0o600 &&& keep) &&& 0o077 = 0 := by
  calc (0o600 &&& keep) &&& 0o077 = keep &&& (0o600 &&& 0o077) := by
        rw [Nat.land_comm 0o600 keep, Nat.land_assoc]
    _ = 0 := Nat.and_zero keep

theorem openRegular_eq_ok {openFormat notRegular : String} {i : ℕ} {data : FileData}
    (hresolve : env.resolve u path = some i) (hnode : u.nodes i = some (.file data))
    (hread : data.mode &&& 0o400 ≠ 0) :
    openRegular env u path openFormat notRegular = .ok data := by
  unfold openRegular
  rw [hresolve]
  dsimp only
  rw [hnode]
  dsimp only
  rw [if_neg hread]

theorem resolve_file {i : ℕ} {data : FileData} (hslot : env.slot u path = some (d, n))
    (hentry : u.entries d n = some i) (hnode : u.nodes i = some (.file data)) :
    env.resolve u path = some i := by
  apply resolve_of_slot hslot hentry
  unfold enter
  rw [hnode]

namespace Made

variable {rt : Runtime} {privatePath publicPath : Bytes} {seed : Vector UInt8 32} {e : ℕ}
    {m : Bytes}

theorem sameTree (h : Made env rt t u privatePath publicPath seed d e n m) : SameTree t u := by
  rw [h.after]
  refine (sameTree_create h.privateFree _).trans (sameTree_create ?_ _)
  rw [entries_create_of_ne h.distinct, h.publicFree]

theorem slots (h : Made env rt t u privatePath publicPath seed d e n m) :
    env.slot u privatePath = some (d, n) ∧ env.slot u publicPath = some (e, m) :=
  ⟨(h.sameTree.slot_eq _ _).trans h.privateSlot, (h.sameTree.slot_eq _ _).trans h.publicSlot⟩

/-- The first new file is found under the private path. -/
theorem privateFile (h : Made env rt t u privatePath publicPath seed d e n m) :
    env.resolve u privatePath = some t.next ∧
      u.nodes t.next = some (.file ⟨keyText (privateKey rt seed), 0o600 &&& env.keep⟩) := by
  have hnode : u.nodes t.next =
      some (.file ⟨keyText (privateKey rt seed), 0o600 &&& env.keep⟩) := by
    rw [h.after, nodes_create_of_ne, nodes_create_self]
    change t.next ≠ t.next + 1
    omega
  refine ⟨resolve_file h.slots.1 ?_ hnode, hnode⟩
  rw [h.after, entries_create_of_ne fun hslot => h.distinct ⟨hslot.1.symm, hslot.2.symm⟩,
    entries_create_self]

theorem publicFile (h : Made env rt t u privatePath publicPath seed d e n m) :
    env.resolve u publicPath = some (t.next + 1) ∧
      u.nodes (t.next + 1) = some (.file ⟨keyText (publicKey rt seed), 0o644 &&& env.keep⟩) := by
  have hnode : u.nodes (t.next + 1) =
      some (.file ⟨keyText (publicKey rt seed), 0o644 &&& env.keep⟩) := by
    rw [h.after]
    exact nodes_create_self
  refine ⟨resolve_file h.slots.2 ?_ hnode, hnode⟩
  rw [h.after]
  exact entries_create_self

theorem loadPrivate_eq (h : Made env rt t u privatePath publicPath seed d e n m)
    (hseed : SeedFirst rt) (hkeep : env.keep &&& 0o600 = 0o600) :
    loadPrivate env rt u privatePath = .ok (privateKey rt seed) := by
  have hlen := length_privateKey rt seed
  have hsize := length_keyText (privateKey rt seed)
  rw [hlen] at hsize
  have hfresh : (rt.newKeyFromSeed ((privateKey rt seed).take 32)).toList = privateKey rt seed := by
    rw [hseed seed]
    rfl
  unfold loadPrivate
  rw [openRegular_eq_ok h.privateFile.1 h.privateFile.2 (owner_can_read hkeep rfl)]
  dsimp only
  rw [if_neg (not_not_intro (private_to_owner env.keep)), if_neg (by rw [hsize]; decide),
    decode_keyText (by omega)]
  dsimp only
  rw [if_neg (by omega), if_pos hlen, if_neg (not_not_intro hfresh)]

theorem loadPublic_eq (h : Made env rt t u privatePath publicPath seed d e n m)
    (hkeep : env.keep &&& 0o600 = 0o600) :
    loadPublic env u publicPath = .ok (publicKey rt seed) := by
  have hlen := length_publicKey rt seed
  have hsize := length_keyText (publicKey rt seed)
  rw [hlen] at hsize
  unfold loadPublic
  rw [openRegular_eq_ok h.publicFile.1 h.publicFile.2 (owner_can_read hkeep rfl)]
  dsimp only
  rw [if_neg (by rw [hsize]; decide), decode_keyText (by omega)]
  dsimp only
  rw [if_neg (not_not_intro hlen)]

end Made

/-- A path that leads to something has no free slot, also after directories were made. -/
theorem entries_of_resolve {made : Files} {i : ℕ} (hfiles : SameFiles t made)
    (hgrows : Grows t made)
    (hresolve : env.resolve t path = some i) (hslot : env.slot made path = some (d, n)) :
    made.entries d n ≠ none := by
  obtain ⟨hlast, -, -⟩ := slot_eq_some.mp hslot
  obtain ⟨e, k, hbefore, hentry⟩ := slot_of_resolve hresolve hlast
  have hsame := slot_mono hgrows hbefore
  change made.slot env.links (parsePath path) = some (d, n) at hslot
  rw [hslot] at hsame
  cases hsame
  have hdir := (slot_eq_some.mp hbefore).2.2
  intro hfree
  cases hk : t.isDirectory k with
  | true =>
      rw [hgrows.entry d n k hdir hentry (.inl hk)] at hfree
      cases hfree
  | false =>
      rw [((hfiles.names d n k).mp ⟨hdir, hentry, hk⟩).2.1] at hfree
      cases hfree

/-- `GenerateFiles` is all or nothing, its files load as the key it returns, and it refuses two
paths to one file. -/
theorem generateFiles_all_or_nothing (env : Environment) (rt : Runtime) (hseed : SeedFirst rt)
    (hkeep : env.keep &&& 0o600 = 0o600) (t : Files) (privatePath publicPath : Bytes)
    (outcomes : Outcomes) :
    (∀ u error, generateFiles env rt t privatePath publicPath outcomes = (u, .error error) →
      SameFiles t u) ∧
    (∀ u key, generateFiles env rt t privatePath publicPath outcomes = (u, .ok key) →
      (∃ loaded, loadPrivate env rt u privatePath = .ok loaded ∧ loaded.drop 32 = key) ∧
      loadPublic env u publicPath = .ok key ∧
      env.slot u privatePath ≠ env.slot u publicPath ∧
      env.resolve u privatePath ≠ env.resolve u publicPath) ∧
    (∀ s, env.slot t privatePath = some s → env.slot t publicPath = some s →
      ∃ u error, generateFiles env rt t privatePath publicPath outcomes = (u, .error error)) ∧
    ∀ i, env.resolve t privatePath = some i ∨ env.resolve t publicPath = some i →
      ∃ u error, generateFiles env rt t privatePath publicPath outcomes = (u, .error error) := by
  rcases generateFiles_cases env rt t privatePath publicPath outcomes with
    ⟨u, error, hgenerate, hsame⟩ | ⟨made, u, seed, d, e, n, m, hgenerate, hfiles, hgrows, hmade⟩
  · rw [hgenerate]
    refine ⟨?_, ?_, ?_, ?_⟩
    · intro v error' h
      cases h
      exact hsame
    · intro v key h
      cases h
    · intro s _ _
      exact ⟨u, error, rfl⟩
    · intro i _
      exact ⟨u, error, rfl⟩
  · rw [hgenerate]
    refine ⟨?_, ?_, ?_, ?_⟩
    · intro v error h
      cases h
    · intro v key h
      cases h
      refine ⟨⟨_, hmade.loadPrivate_eq hseed hkeep, rfl⟩, hmade.loadPublic_eq hkeep, ?_, ?_⟩
      · rw [hmade.slots.1, hmade.slots.2]
        intro hsame
        cases hsame
        exact hmade.distinct ⟨rfl, rfl⟩
      · rw [hmade.privateFile.1, hmade.publicFile.1]
        intro hsame
        have := Option.some.inj hsame
        omega
    · intro s hprivate hpublic
      have hsame := hmade.privateSlot.symm.trans
        ((slot_mono hgrows hprivate).trans (slot_mono hgrows hpublic).symm)
      rw [show made.slot env.links (parsePath publicPath) = some (e, m) from hmade.publicSlot]
        at hsame
      cases hsame
      exact absurd ⟨rfl, rfl⟩ hmade.distinct
    · rintro i (hprivate | hpublic)
      · exact absurd hmade.privateFree
          (entries_of_resolve hfiles hgrows hprivate hmade.privateSlot)
      · exact absurd hmade.publicFree (entries_of_resolve hfiles hgrows hpublic hmade.publicSlot)

namespace Sample

def tree : Files where
  nodes i := if i = 0 then some (.directory 0o755)
    else if i = 1 then some (.symlink true []) else none
  entries d n := if d = 0 ∧ n = str "l" then some 1 else none
  parent _ := 0
  root := 0
  cwd := 0
  next := 2
  fresh := by
    intro i hi
    rw [if_neg (by omega), if_neg (by omega)]
  bound := by
    intro d n i h
    split_ifs at h
    cases h
    decide

/-- One component in `filepath.Clean`, over those that are left so far, the last one first. -/
def cleanStep (rooted : Bool) (left : List Bytes) : Component Bytes → List Bytes
  | .here => left
  | .name n => n :: left
  | .up =>
      match left with
      | [] => if rooted then [] else [str ".."]
      | last :: rest => if last = str ".." then str ".." :: left else rest

def clean (path : Bytes) : Bytes :=
  let p := parsePath path
  let left := [47].intercalate (p.components.foldl (cleanStep p.absolute) []).reverse
  if p.absolute then 47 :: left else if left = [] then str "." else left

def dir (path : Bytes) : Bytes := clean (path.reverse.dropWhile (· ≠ 47)).reverse

example : clean (str "/l//../key/./") = str "/key" ∧ clean (str "a/../../b") = str "../b" ∧
    dir (str "/l/key.pub") = str "/l" ∧ dir (str "/key") = str "/" ∧ dir (str "key") = str "." := by
  decide

/-- The directories are there, and the umask takes the bits of group and others to write. -/
def environment : Environment where
  links := 40
  keep := 0o755
  clean := clean
  dir := dir
  mkdirAll t _ _ := (t, none)
  mkdirAll_grows t _ _ := Grows.refl t
  mkdirAll_files t _ _ := SameFiles.refl t

def noFaults : Faults := ⟨none, none, [], none, none⟩

def outcomes : Outcomes := ⟨.ok (Vector.replicate 32 7), none, none, noFaults, noFaults⟩

theorem seedFirst_toy : SeedFirst Runtime.toy := by
  intro seed
  apply List.ext_getElem
  · simp [privateKey]
  · intro i hi hi'
    have hlt : i < 32 := by simpa using hi'
    simp [privateKey, Runtime.toy, Nat.mod_eq_of_lt hlt, hlt]

def generated (privatePath publicPath : Bytes) : Files × Except Error Bytes :=
  generateFiles environment Runtime.toy tree privatePath publicPath outcomes

end Sample

/-- Two names load as one pair; one name by two ways is refused. -/
theorem generateFiles_all_or_nothing_root :
    (∃ u key, Sample.generated (str "/key") (str "/l/key.pub") = (u, .ok key) ∧
      loadPublic Sample.environment u (str "/l/key.pub") = .ok key) ∧
    ∃ u error, Sample.generated (str "/key") (str "/l/key") = (u, .error error) ∧
      SameFiles Sample.tree u := by
  have hpair := generateFiles_all_or_nothing Sample.environment Runtime.toy Sample.seedFirst_toy
    (by decide) Sample.tree (str "/key") (str "/l/key.pub") Sample.outcomes
  have hsame := generateFiles_all_or_nothing Sample.environment Runtime.toy Sample.seedFirst_toy
    (by decide) Sample.tree (str "/key") (str "/l/key") Sample.outcomes
  constructor
  · have hok : (Sample.generated (str "/key") (str "/l/key.pub")).2.isOk = true := by decide
    obtain ⟨key, hkey⟩ := exists_of_isOk hok
    have hrun : Sample.generated (str "/key") (str "/l/key.pub") =
        ((Sample.generated (str "/key") (str "/l/key.pub")).1, .ok key) := by rw [← hkey]
    exact ⟨_, key, hrun, (hpair.2.1 _ key hrun).2.1⟩
  · have hslot : Sample.environment.slot Sample.tree (str "/key") = some (0, str "key") ∧
        Sample.environment.slot Sample.tree (str "/l/key") = some (0, str "key") := by
      decide
    obtain ⟨u, error, hrun⟩ := hsame.2.2.1 _ hslot.1 hslot.2
    exact ⟨u, error, hrun, hsame.1 u error hrun⟩

end CloudHelp.SigningKey
