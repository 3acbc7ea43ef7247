import Mathlib

/-!
# A tree of files and the paths into it

Directories bind names to nodes; a node is a directory, a file, a symbolic link or something else.
`walk` follows a path and every link on it, up to a number of links. `slot` is the place a path
names for creating or removing: the directory its last name is in. Links in the last place are not
followed there.

What a walk to a directory meets is directories and links, so it does not depend on the files
(`walk_mono`). Creating, writing or removing a file therefore leaves every slot where it was.
-/

namespace CloudHelp

namespace FileTree

inductive Component (N : Type) where
  | here
  | up
  | name (n : N)
  deriving DecidableEq, Repr

inductive Node (N D : Type) where
  | directory (mode : ℕ)
  | file (data : D)
  | symlink (absolute : Bool) (target : List (Component N))
  | special

structure Path (N : Type) where
  absolute : Bool
  components : List (Component N)

end FileTree

open FileTree in
structure FileTree (N D : Type) where
  nodes : ℕ → Option (Node N D)
  entries : ℕ → N → Option ℕ
  parent : ℕ → ℕ
  root : ℕ
  cwd : ℕ
  next : ℕ
  fresh : ∀ i, next ≤ i → nodes i = none
  bound : ∀ d n i, entries d n = some i → i < next

namespace FileTree

variable {N D : Type}

def isDirectory (t : FileTree N D) (i : ℕ) : Bool :=
  match t.nodes i with
  | some (.directory _) => true
  | _ => false

/-! ## Following a path -/

inductive Next (N : Type) where
  | node (i : ℕ)
  | link (absolute : Bool) (target : List (Component N))

section Walk

variable (t : FileTree N D)

def enter (j : ℕ) : Next N :=
  match t.nodes j with
  | some (.symlink absolute target) => .link absolute target
  | _ => .node j

def look (i : ℕ) (c : Component N) : Option (Next N) :=
  if t.isDirectory i = false then none
  else match c with
    | .here => some (.node i)
    | .up => some (.node (t.parent i))
    | .name n => (t.entries i n).map t.enter

/-- The walk from a node; `follow` goes on behind a link. -/
def walkWith (follow : ℕ → List (Component N) → Option ℕ) : ℕ → List (Component N) → Option ℕ
  | i, [] => some i
  | i, c :: rest =>
      match t.look i c with
      | none => none
      | some (.node j) => walkWith follow j rest
      | some (.link absolute target) => follow (if absolute then t.root else i) (target ++ rest)

/-- The walk with at most `links` links. -/
def walk : ℕ → ℕ → List (Component N) → Option ℕ
  | 0 => t.walkWith fun _ _ => none
  | links + 1 => t.walkWith (walk links)

def start (path : Path N) : ℕ := if path.absolute then t.root else t.cwd

def resolve (links : ℕ) (path : Path N) : Option ℕ := t.walk links (t.start path) path.components

/-- The directory and the name under which a path creates or removes. -/
def slot (links : ℕ) (path : Path N) : Option (ℕ × N) :=
  match path.components.getLast? with
  | some (.name n) =>
      match t.walk links (t.start path) path.components.dropLast with
      | none => none
      | some d => if t.isDirectory d then some (d, n) else none
  | _ => none

end Walk

/-! ## Changes -/

section Changes

variable [DecidableEq N]

def create (t : FileTree N D) (d : ℕ) (n : N) (data : D) : FileTree N D :=
  { t with
    nodes := Function.update t.nodes t.next (some (.file data))
    entries := fun e m => if e = d ∧ m = n then some t.next else t.entries e m
    next := t.next + 1
    fresh := by
      intro i hi
      rw [Function.update_of_ne (by omega)]
      exact t.fresh i (by omega)
    bound := by
      intro e m i h
      split_ifs at h with hslot
      · obtain rfl := Option.some.inj h
        omega
      · have := t.bound e m i h
        omega }

def setData (t : FileTree N D) (i : ℕ) (data : D) : FileTree N D :=
  { t with
    nodes := fun j => if j = i ∧ i < t.next then some (.file data) else t.nodes j
    fresh := by
      intro j hj
      rw [if_neg (by omega)]
      exact t.fresh j hj }

def unlink (t : FileTree N D) (d : ℕ) (n : N) : FileTree N D :=
  { t with
    entries := fun e m => if e = d ∧ m = n then none else t.entries e m
    bound := by
      intro e m i h
      split_ifs at h with hslot
      exact t.bound e m i h }

variable {t : FileTree N D} {d : ℕ} {n : N} {data : D}

theorem setData_create (t : FileTree N D) (d : ℕ) (n : N) (first data : D) :
    (t.create d n first).setData t.next data = t.create d n data := by
  simp only [setData, create, FileTree.mk.injEq, and_true]
  funext j
  by_cases h : j = t.next
  · subst h
    simp
  · simp [h]

@[simp] theorem entries_create_self : (t.create d n data).entries d n = some t.next := by
  simp [create]

theorem entries_create_of_ne {e : ℕ} {m : N} (h : ¬(e = d ∧ m = n)) :
    (t.create d n data).entries e m = t.entries e m := if_neg h

@[simp] theorem nodes_create_self : (t.create d n data).nodes t.next = some (.file data) :=
  Function.update_self _ _ _

theorem nodes_create_of_ne {i : ℕ} (h : i ≠ t.next) : (t.create d n data).nodes i = t.nodes i :=
  Function.update_of_ne h _ _

end Changes

variable {t u v : FileTree N D} {d : ℕ} {n : N}

theorem lt_next_of_nodes {i : ℕ} {node : Node N D} (h : t.nodes i = some node) : i < t.next := by
  by_contra hge
  rw [t.fresh i (by omega)] at h
  cases h

/-! ## What a walk depends on -/

/-- A node that a walk passes through. -/
def Inner (t : FileTree N D) (i : ℕ) : Prop :=
  t.isDirectory i = true ∨ ∃ absolute target, t.nodes i = some (.symlink absolute target)

/-- The directories and links of `t` are in `u`, under the same names. -/
structure Grows (t u : FileTree N D) : Prop where
  root : u.root = t.root
  cwd : u.cwd = t.cwd
  directory : ∀ i, t.isDirectory i = true → u.isDirectory i = true ∧ u.parent i = t.parent i
  link : ∀ i absolute target, t.nodes i = some (.symlink absolute target) →
    u.nodes i = some (.symlink absolute target)
  entry : ∀ i n j, t.isDirectory i = true → t.entries i n = some j → t.Inner j →
    u.entries i n = some j

theorem Grows.refl (t : FileTree N D) : Grows t t :=
  ⟨rfl, rfl, fun _ h => ⟨h, rfl⟩, fun _ _ _ h => h, fun _ _ _ _ h _ => h⟩

theorem Grows.inner (h : Grows t u) {i : ℕ} (hi : t.Inner i) : u.Inner i := by
  rcases hi with hd | ⟨absolute, target, hl⟩
  · exact .inl (h.directory i hd).1
  · exact .inr ⟨absolute, target, h.link i absolute target hl⟩

theorem Grows.trans (h : Grows t u) (k : Grows u v) : Grows t v where
  root := k.root.trans h.root
  cwd := k.cwd.trans h.cwd
  directory i hi := by
    obtain ⟨hu, hparent⟩ := h.directory i hi
    obtain ⟨hv, hparent'⟩ := k.directory i hu
    exact ⟨hv, hparent'.trans hparent⟩
  link i absolute target hi := k.link i absolute target (h.link i absolute target hi)
  entry i n j hi hj hinner :=
    k.entry i n j (h.directory i hi).1 (h.entry i n j hi hj hinner) (h.inner hinner)

theorem look_of_not_directory {i : ℕ} (h : t.isDirectory i = false) (c : Component N) :
    t.look i c = none := if_pos h

theorem isDirectory_of_look {i : ℕ} {c : Component N} {x : Next N} (h : t.look i c = some x) :
    t.isDirectory i = true := by
  by_contra hi
  rw [look_of_not_directory (Bool.eq_false_of_not_eq_true hi)] at h
  cases h

theorem enter_of_directory {j : ℕ} (h : t.isDirectory j = true) : t.enter j = .node j := by
  unfold isDirectory at h
  unfold enter
  cases hnode : t.nodes j with
  | none => rfl
  | some node =>
      rw [hnode] at h
      cases node with
      | symlink absolute target => cases h
      | directory mode => rfl
      | file data => rfl
      | special => rfl

theorem enter_eq_link {j : ℕ} {absolute : Bool} {target : List (Component N)} :
    t.enter j = .link absolute target ↔ t.nodes j = some (.symlink absolute target) := by
  unfold enter
  cases hnode : t.nodes j with
  | none => simp
  | some node => cases node <;> simp

theorem enter_eq_node {i j : ℕ} (h : t.enter j = .node i) : i = j := by
  unfold enter at h
  split at h
  · cases h
  · cases h
    rfl

/-- A step to a directory or to a link is the same step in a tree that has grown. -/
theorem look_mono (hg : Grows t u) {i : ℕ} {c : Component N} {x : Next N}
    (h : t.look i c = some x) (hx : ∀ j, x = .node j → t.isDirectory j = true) :
    u.look i c = some x := by
  have hi := isDirectory_of_look h
  obtain ⟨hui, hparent⟩ := hg.directory i hi
  unfold look at h ⊢
  rw [if_neg (by simp [hi])] at h
  rw [if_neg (by simp [hui])]
  cases c with
  | here => exact h
  | up =>
      dsimp only
      rw [hparent]
      exact h
  | name n =>
      obtain ⟨j, hentry, hj⟩ := Option.map_eq_some_iff.mp h
      have hinner : t.Inner j ∧ u.enter j = x := by
        cases x with
        | node k =>
            obtain rfl := enter_eq_node hj
            have hdir := hx _ rfl
            exact ⟨.inl hdir, enter_of_directory (hg.directory _ hdir).1⟩
        | link absolute target =>
            have hnode := enter_eq_link.mp hj
            exact ⟨.inr ⟨absolute, target, hnode⟩,
              enter_eq_link.mpr (hg.link j absolute target hnode)⟩
      exact Option.map_eq_some_iff.mpr ⟨j, hg.entry i n j hi hentry hinner.1, hinner.2⟩

/-- A walk that has something left to do stands at a directory. -/
theorem walkWith_stuck {follow : ℕ → List (Component N) → Option ℕ} {i e : ℕ}
    {rest : List (Component N)} (hi : t.isDirectory i = false)
    (h : t.walkWith follow i rest = some e) : e = i := by
  cases rest with
  | nil => exact (Option.some.inj h).symm
  | cons c rest =>
      rw [walkWith, look_of_not_directory hi] at h
      cases h

theorem walkWith_mono (hg : Grows t u) {follow follow' : ℕ → List (Component N) → Option ℕ}
    (hf : ∀ i rest e, follow i rest = some e → t.isDirectory e = true → follow' i rest = some e)
    {i e : ℕ} {rest : List (Component N)} (h : t.walkWith follow i rest = some e)
    (he : t.isDirectory e = true) : u.walkWith follow' i rest = some e := by
  induction rest generalizing i with
  | nil => exact h
  | cons c rest ih =>
      rw [walkWith] at h ⊢
      cases hlook : t.look i c with
      | none =>
          rw [hlook] at h
          cases h
      | some x =>
          rw [hlook] at h
          cases x with
          | node j =>
              -- the walk ends at a directory, so it does not stop at a file on its way
              have hj : t.isDirectory j = true := by
                by_contra hfile
                rw [Bool.not_eq_true] at hfile
                rw [walkWith_stuck hfile h, hfile] at he
                cases he
              rw [look_mono hg hlook fun k hk => by cases hk; exact hj]
              exact ih h
          | link absolute target =>
              rw [look_mono hg hlook fun k hk => by cases hk]
              dsimp only at h ⊢
              rw [hg.root]
              exact hf _ _ _ h he

/-- A walk to a directory is the same walk where there are more directories and links. -/
theorem walk_mono (hg : Grows t u) {links i e : ℕ} {rest : List (Component N)}
    (h : t.walk links i rest = some e) (he : t.isDirectory e = true) :
    u.walk links i rest = some e := by
  induction links generalizing i e rest with
  | zero => exact walkWith_mono hg (fun _ _ _ hnone _ => hnone) h he
  | succ links ih => exact walkWith_mono hg (fun _ _ _ hw hd => ih hw hd) h he

theorem slot_eq_some {links : ℕ} {path : Path N} : t.slot links path = some (d, n) ↔
    path.components.getLast? = some (.name n) ∧
      t.walk links (t.start path) path.components.dropLast = some d ∧ t.isDirectory d = true := by
  unfold slot
  constructor
  · intro h
    cases hlast : path.components.getLast? with
    | none =>
        rw [hlast] at h
        cases h
    | some c =>
        rw [hlast] at h
        cases c with
        | here => cases h
        | up => cases h
        | name m =>
            dsimp only at h
            cases hwalk : t.walk links (t.start path) path.components.dropLast with
            | none =>
                rw [hwalk] at h
                cases h
            | some e =>
                rw [hwalk] at h
                dsimp only at h
                split_ifs at h with hdir
                cases h
                exact ⟨rfl, rfl, hdir⟩
  · rintro ⟨hlast, hwalk, hdir⟩
    rw [hlast]
    dsimp only
    rw [hwalk]
    dsimp only
    rw [if_pos hdir]

theorem slot_mono (hg : Grows t u) {links : ℕ} {path : Path N} {s : ℕ × N}
    (h : t.slot links path = some s) : u.slot links path = some s := by
  obtain ⟨d, n⟩ := s
  rw [slot_eq_some] at h ⊢
  obtain ⟨hlast, hwalk, hdir⟩ := h
  have hstart : u.start path = t.start path := by rw [start, start, hg.root, hg.cwd]
  exact ⟨hlast, hstart ▸ walk_mono hg hwalk hdir, (hg.directory d hdir).1⟩

/-! ## Files and their names -/

/-- `n` in the directory `d` is a name of `i`, which is no directory. -/
def FileName (t : FileTree N D) (d : ℕ) (n : N) (i : ℕ) : Prop :=
  t.isDirectory d = true ∧ t.entries d n = some i ∧ t.isDirectory i = false

/-- The same files under the same names, each as it was. -/
structure SameFiles (t u : FileTree N D) : Prop where
  names : ∀ d n i, t.FileName d n i ↔ u.FileName d n i
  nodes : ∀ d n i, t.FileName d n i → u.nodes i = t.nodes i

theorem SameFiles.refl (t : FileTree N D) : SameFiles t t :=
  ⟨fun _ _ _ => Iff.rfl, fun _ _ _ _ => rfl⟩

theorem SameFiles.trans (h : SameFiles t u) (k : SameFiles u v) : SameFiles t v where
  names d n i := (h.names d n i).trans (k.names d n i)
  nodes d n i hi := (k.nodes d n i ((h.names d n i).mp hi)).trans (h.nodes d n i hi)

def SameTree (t u : FileTree N D) : Prop := Grows t u ∧ Grows u t

theorem SameTree.trans (h : SameTree t u) (k : SameTree u v) : SameTree t v :=
  ⟨h.1.trans k.1, k.2.trans h.2⟩

theorem SameTree.slot_eq (h : SameTree t u) (links : ℕ) (path : Path N) :
    u.slot links path = t.slot links path := by
  cases ht : t.slot links path with
  | some s => exact slot_mono h.1 ht
  | none =>
      cases hu : u.slot links path with
      | none => rfl
      | some s =>
          rw [slot_mono h.2 hu] at ht
          cases ht

section Files

variable [DecidableEq N]

theorem isDirectory_create (t : FileTree N D) (d : ℕ) (n : N) (data : D) (i : ℕ) :
    (t.create d n data).isDirectory i = t.isDirectory i := by
  by_cases h : i = t.next
  · subst h
    simp [isDirectory, t.fresh t.next le_rfl]
  · simp [isDirectory, nodes_create_of_ne h]

theorem isDirectory_unlink (t : FileTree N D) (d : ℕ) (n : N) (i : ℕ) :
    (t.unlink d n).isDirectory i = t.isDirectory i := rfl

/-- A new file under a free name changes no directory and no link. -/
theorem sameTree_create (hfree : t.entries d n = none) (data : D) :
    SameTree t (t.create d n data) := by
  constructor
  · refine ⟨rfl, rfl, ?_, ?_, ?_⟩
    · intro i hi
      exact ⟨by rw [isDirectory_create, hi], rfl⟩
    · intro i absolute target hi
      have hlt := lt_next_of_nodes hi
      rw [nodes_create_of_ne (by omega), hi]
    · intro i m j _ hj _
      rw [entries_create_of_ne, hj]
      rintro ⟨rfl, rfl⟩
      rw [hfree] at hj
      cases hj
  · refine ⟨rfl, rfl, ?_, ?_, ?_⟩
    · intro i hi
      rw [isDirectory_create] at hi
      exact ⟨hi, rfl⟩
    · intro i absolute target hi
      by_cases hnext : i = t.next
      · subst hnext
        rw [nodes_create_self] at hi
        cases hi
      · rwa [nodes_create_of_ne hnext] at hi
    · intro i m j _ hj hinner
      by_cases hslot : i = d ∧ m = n
      · -- the one new name is that of a file
        obtain ⟨rfl, rfl⟩ := hslot
        rw [entries_create_self] at hj
        obtain rfl := Option.some.inj hj
        rcases hinner with hdir | ⟨absolute, target, hlink⟩
        · simp [isDirectory] at hdir
        · rw [nodes_create_self] at hlink
          cases hlink
      · rwa [entries_create_of_ne hslot] at hj

theorem sameTree_unlink {i : ℕ} (hname : t.FileName d n i)
    (hfile : ¬t.Inner i) : SameTree t (t.unlink d n) := by
  constructor
  · refine ⟨rfl, rfl, fun _ h => ⟨h, rfl⟩, fun _ _ _ h => h, ?_⟩
    intro e m j _ hj hinner
    change (if e = d ∧ m = n then none else t.entries e m) = some j
    rw [if_neg, hj]
    rintro ⟨rfl, rfl⟩
    rw [hname.2.1] at hj
    obtain rfl := Option.some.inj hj
    exact hfile hinner
  · refine ⟨rfl, rfl, fun _ h => ⟨h, rfl⟩, fun _ _ _ h => h, ?_⟩
    intro e m j _ hj _
    change (if e = d ∧ m = n then none else t.entries e m) = some j at hj
    split_ifs at hj with hslot
    exact hj

theorem fileName_create (data : D) (hd : t.isDirectory d = true) (hfree : t.entries d n = none)
    {e : ℕ} {m : N} {i : ℕ} : (t.create d n data).FileName e m i ↔
      (e = d ∧ m = n ∧ i = t.next) ∨ t.FileName e m i := by
  unfold FileName
  rw [isDirectory_create, isDirectory_create]
  by_cases hslot : e = d ∧ m = n
  · obtain ⟨rfl, rfl⟩ := hslot
    have hnext : t.isDirectory t.next = false := by simp [isDirectory, t.fresh t.next le_rfl]
    rw [entries_create_self, hfree]
    constructor
    · rintro ⟨-, hi, -⟩
      exact .inl ⟨rfl, rfl, (Option.some.inj hi).symm⟩
    · rintro (⟨-, -, rfl⟩ | ⟨-, hi, -⟩)
      · exact ⟨hd, rfl, hnext⟩
      · cases hi
  · rw [entries_create_of_ne hslot]
    constructor
    · exact .inr
    · rintro (⟨he, hm, -⟩ | h)
      · exact absurd ⟨he, hm⟩ hslot
      · exact h

theorem fileName_unlink {e : ℕ} {m : N} {i : ℕ} : (t.unlink d n).FileName e m i ↔
    ¬(e = d ∧ m = n) ∧ t.FileName e m i := by
  unfold FileName
  rw [isDirectory_unlink, isDirectory_unlink]
  change _ ∧ (if e = d ∧ m = n then none else t.entries e m) = some i ∧ _ ↔ _
  by_cases hslot : e = d ∧ m = n
  · simp [hslot]
  · simp [hslot]

/-- Removing the file that was created leaves the files that were there before, whatever became of
the directories in between. -/
theorem sameFiles_unlink_create {data : D} (hd : t.isDirectory d = true)
    (hfree : t.entries d n = none) (h : SameFiles (t.create d n data) u) :
    SameFiles t (u.unlink d n) where
  names e m i := by
    rw [fileName_unlink, ← h.names, fileName_create data hd hfree]
    constructor
    · intro hname
      refine ⟨?_, .inr hname⟩
      rintro ⟨rfl, rfl⟩
      rw [hname.2.1] at hfree
      cases hfree
    · rintro ⟨hslot, ⟨he, hm, -⟩ | hname⟩
      · exact absurd ⟨he, hm⟩ hslot
      · exact hname
  nodes e m i hname := by
    have hcreated := (fileName_create data hd hfree).mpr (.inr hname)
    have hlt := t.bound e m i hname.2.1
    change u.nodes i = t.nodes i
    rw [h.nodes e m i hcreated, nodes_create_of_ne (by omega)]

end Files

/-! ## The whole path -/

theorem look_name {e j : ℕ} (he : t.isDirectory e = true) (hentry : t.entries e n = some j) :
    t.look e (.name n) = some (t.enter j) := by
  rw [look, if_neg (by simp [he]), hentry]
  rfl

/-- From the directory of the last name, the walk takes that name. -/
theorem walkWith_concat {follow follow' : ℕ → List (Component N) → Option ℕ} {j : ℕ}
    (hf : ∀ i rest e, follow i rest = some e → t.isDirectory e = true → t.entries e n = some j →
      follow' i (rest ++ [.name n]) = some j)
    (hj : t.enter j = .node j) {i e : ℕ} {rest : List (Component N)}
    (h : t.walkWith follow i rest = some e) (he : t.isDirectory e = true)
    (hentry : t.entries e n = some j) : t.walkWith follow' i (rest ++ [.name n]) = some j := by
  induction rest generalizing i with
  | nil =>
      obtain rfl := Option.some.inj h
      rw [List.nil_append, walkWith, look_name he hentry, hj]
      rfl
  | cons c rest ih =>
      rw [List.cons_append, walkWith]
      rw [walkWith] at h
      cases hlook : t.look i c with
      | none =>
          rw [hlook] at h
          cases h
      | some x =>
          rw [hlook] at h
          cases x with
          | node k => exact ih h
          | link absolute target =>
              dsimp only at h ⊢
              rw [← List.append_assoc]
              exact hf _ _ _ h he hentry

theorem walk_concat {links i e j : ℕ} {rest : List (Component N)} (hj : t.enter j = .node j)
    (h : t.walk links i rest = some e) (he : t.isDirectory e = true)
    (hentry : t.entries e n = some j) : t.walk links i (rest ++ [.name n]) = some j := by
  induction links generalizing i e rest with
  | zero =>
      refine walkWith_concat ?_ hj h he hentry
      intro i rest e hnone
      cases hnone
  | succ links ih =>
      refine walkWith_concat ?_ hj h he hentry
      intro i rest e' hw he' hentry'
      exact ih hw he' hentry'

/-- A walk that takes a last name comes through its directory. -/
theorem walkWith_concat_inv {follow follow' : ℕ → List (Component N) → Option ℕ}
    (hf : ∀ i rest j, follow' i (rest ++ [.name n]) = some j →
      ∃ e k, follow i rest = some e ∧ t.isDirectory e = true ∧ t.entries e n = some k)
    {i j : ℕ} {rest : List (Component N)}
    (h : t.walkWith follow' i (rest ++ [.name n]) = some j) :
    ∃ e k, t.walkWith follow i rest = some e ∧ t.isDirectory e = true ∧ t.entries e n = some k := by
  induction rest generalizing i with
  | nil =>
      rw [List.nil_append, walkWith] at h
      cases hlook : t.look i (.name n) with
      | none =>
          rw [hlook] at h
          cases h
      | some x =>
          have hi := isDirectory_of_look hlook
          rw [look, if_neg (by simp [hi])] at hlook
          obtain ⟨k, hentry, -⟩ := Option.map_eq_some_iff.mp hlook
          exact ⟨i, k, rfl, hi, hentry⟩
  | cons c rest ih =>
      rw [List.cons_append, walkWith] at h
      rw [walkWith]
      cases hlook : t.look i c with
      | none =>
          rw [hlook] at h
          cases h
      | some x =>
          rw [hlook] at h
          cases x with
          | node k => exact ih h
          | link absolute target =>
              dsimp only at h ⊢
              rw [← List.append_assoc] at h
              exact hf _ _ _ h

theorem walk_concat_inv {links i j : ℕ} {rest : List (Component N)}
    (h : t.walk links i (rest ++ [.name n]) = some j) :
    ∃ e k, t.walk links i rest = some e ∧ t.isDirectory e = true ∧ t.entries e n = some k := by
  induction links generalizing i j rest with
  | zero =>
      refine walkWith_concat_inv ?_ h
      intro i rest j hnone
      cases hnone
  | succ links ih =>
      refine walkWith_concat_inv ?_ h
      intro i rest j hw
      exact ih hw

theorem components_eq_concat {path : Path N} (h : path.components.getLast? = some (.name n)) :
    path.components = path.components.dropLast ++ [.name n] :=
  (List.dropLast_append_getLast? _ h).symm

/-- A path leads to the file in its slot. -/
theorem resolve_of_slot {links j : ℕ} {path : Path N} (h : t.slot links path = some (d, n))
    (hentry : t.entries d n = some j) (hj : t.enter j = .node j) :
    t.resolve links path = some j := by
  obtain ⟨hlast, hwalk, hdir⟩ := slot_eq_some.mp h
  rw [resolve, components_eq_concat hlast]
  exact walk_concat hj hwalk hdir hentry

/-- Where a path leads somewhere and ends in a name, its slot is taken. -/
theorem slot_of_resolve {links j : ℕ} {path : Path N} (h : t.resolve links path = some j)
    (hlast : path.components.getLast? = some (.name n)) :
    ∃ d k, t.slot links path = some (d, n) ∧ t.entries d n = some k := by
  rw [resolve, components_eq_concat hlast] at h
  obtain ⟨d, k, hwalk, hdir, hentry⟩ := walk_concat_inv h
  exact ⟨d, k, slot_eq_some.mpr ⟨hlast, hwalk, hdir⟩, hentry⟩

/-! ## Trees that only gain -/

/-- Nothing of `t` is lost or changed in `u`. -/
structure Extends (t u : FileTree N D) : Prop where
  grows : Grows t u
  files : ∀ d n i, t.FileName d n i → u.entries d n = some i ∧ u.nodes i = t.nodes i

theorem Extends.refl (t : FileTree N D) : Extends t t :=
  ⟨Grows.refl t, fun _ _ _ h => ⟨h.2.1, rfl⟩⟩

theorem Extends.fileName (h : Extends t u) {i : ℕ} (hname : t.FileName d n i) :
    u.FileName d n i := by
  obtain ⟨hentry, hnode⟩ := h.files d n i hname
  refine ⟨(h.grows.directory d hname.1).1, hentry, ?_⟩
  have hfile := hname.2.2
  unfold isDirectory at hfile ⊢
  rw [hnode]
  exact hfile

theorem Extends.trans (h : Extends t u) (k : Extends u v) : Extends t v where
  grows := h.grows.trans k.grows
  files d n i hname := by
    obtain ⟨-, hnode⟩ := h.files d n i hname
    obtain ⟨hentry, hnode'⟩ := k.files d n i (h.fileName hname)
    exact ⟨hentry, hnode'.trans hnode⟩

theorem SameFiles.toExtends (hfiles : SameFiles t u) (hgrows : Grows t u) : Extends t u where
  grows := hgrows
  files d n i hname := ⟨((hfiles.names d n i).mp hname).2.1, hfiles.nodes d n i hname⟩

theorem extends_create [DecidableEq N] (hfree : t.entries d n = none) (data : D) :
    Extends t (t.create d n data) where
  grows := (sameTree_create hfree data).1
  files e m i hname := by
    have hne : ¬(e = d ∧ m = n) := by
      rintro ⟨rfl, rfl⟩
      rw [hname.2.1] at hfree
      cases hfree
    have hlt := t.bound e m i hname.2.1
    exact ⟨(entries_create_of_ne hne).trans hname.2.1, nodes_create_of_ne (by omega)⟩

end FileTree

end CloudHelp
