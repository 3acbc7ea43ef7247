import Mathlib

/-!
# Transactions under READ COMMITTED

A database is a store of rows by key. Next to the committed row a key has at most one version that
is not committed, together with the transaction that wrote it: that version is the lock of the row,
or the entry of a unique index that a second insertion waits for, and two transactions cannot hold
it at once. A statement sees what is committed when it runs and what its own transaction wrote. The
row type may depend on the key, so that several tables and their unique indexes are one store.
-/

namespace CloudHelp

abbrev Rows {K : Type} (V : K → Type) := (k : K) → Option (V k)

def Rows.over {K : Type} {V : K → Type} (top base : Rows V) : Rows V := fun k => (top k).or (base k)

structure Database (T : Type) {K : Type} (V : K → Type) where
  committed : Rows V
  uncommitted : (k : K) → Option (T × V k)

namespace Database

variable {T K : Type} {V : K → Type}

def empty : Database T V := ⟨fun _ => none, fun _ => none⟩

/-- A write replaces the version that is not committed. -/
def write [DecidableEq K] (db : Database T V) (t : T) (k : K) (v : V k) : Database T V :=
  { db with uncommitted := Function.update db.uncommitted k (some (t, v)) }

@[simp] theorem committed_write [DecidableEq K] (db : Database T V) (t : T) (k : K) (v : V k) :
    (db.write t k v).committed = db.committed :=
  rfl

/-- A write under the key does not have to wait for another transaction. -/
def Free (db : Database T V) (t : T) (k : K) : Prop := ∀ p ∈ db.uncommitted k, p.1 = t

theorem Free.write [DecidableEq K] {db : Database T V} {t : T} {k j : K} {w : V j}
    (h : db.Free t k) : (db.write t j w).Free t k := by
  intro p hp
  by_cases hj : k = j
  · subst hj
    obtain rfl : (t, w) = p := by simpa [Database.write] using hp
    rfl
  · have hold : p ∈ db.uncommitted k := by simpa [Database.write, hj] using hp
    exact h p hold

variable [DecidableEq T] (db : Database T V) (t : T)

def own : Rows V := fun k => (db.uncommitted k).bind fun p => if p.1 = t then some p.2 else none

/-- The row a statement of the transaction sees. -/
def visible : Rows V := (db.own t).over db.committed

instance (k : K) : Decidable (db.Free t k) :=
  match h : db.uncommitted k with
  | none => .isTrue fun p hp => by simp [h] at hp
  | some p => decidable_of_iff (p.1 = t) (by simp [Free, h])

def release : (k : K) → Option (T × V k) :=
  fun k => (db.uncommitted k).filter fun p => !decide (p.1 = t)

def commit : Database T V := ⟨db.visible t, db.release t⟩

def rollback : Database T V := ⟨db.committed, db.release t⟩

variable {db t} {u : T} {k : K} {v : V k}

@[simp] theorem committed_rollback : (db.rollback t).committed = db.committed := rfl

theorem committed_commit : (db.commit t).committed = (db.own t).over db.committed := rfl

@[simp] theorem own_empty : (empty : Database T V).own t = fun _ => none := rfl

theorem own_eq_some : db.own t k = some v ↔ db.uncommitted k = some (t, v) := by
  unfold own
  cases db.uncommitted k with
  | none => simp
  | some p =>
      obtain ⟨w, x⟩ := p
      by_cases hw : w = t <;> simp [hw]

theorem visible_of_own_none (h : db.own t k = none) : db.visible t k = db.committed k := by
  rw [visible, Rows.over, h, Option.none_or]

/-! ## Writing -/

section Write

variable [DecidableEq K]

theorem own_write_self : (db.write t k v).own t = Function.update (db.own t) k (some v) := by
  funext j
  by_cases hj : j = k
  · subst hj
    simp [own, write]
  · simp [own, write, hj]

theorem own_write_of_ne (hu : u ≠ t) (hfree : db.Free t k) : (db.write t k v).own u = db.own u := by
  funext j
  by_cases hj : j = k
  · subst hj
    -- a version of `u` under the key would be a lock against `t`
    have hnone : db.own u j = none := by
      rw [Option.eq_none_iff_forall_ne_some]
      intro x hx
      exact hu (hfree (u, x) (own_eq_some.mp hx))
    rw [hnone]
    simp [own, write, Ne.symm hu]
  · simp [own, write, hj]

end Write

/-! ## The end of a transaction -/

theorem own_release_self (w : Rows V) : own ⟨w, db.release t⟩ t = fun _ => none := by
  funext k
  rw [Option.eq_none_iff_forall_ne_some]
  intro x hx
  have h : db.release t k = some (t, x) := own_eq_some.mp hx
  simp [release, Option.filter_eq_some_iff] at h

theorem own_release_of_ne (hu : u ≠ t) (w : Rows V) : own ⟨w, db.release t⟩ u = db.own u := by
  funext k
  ext x
  rw [own_eq_some, own_eq_some]
  change db.release t k = some (u, x) ↔ _
  simp [release, Option.filter_eq_some_iff, hu]

@[simp] theorem own_commit_self : (db.commit t).own t = fun _ => none := own_release_self _

@[simp] theorem own_rollback_self : (db.rollback t).own t = fun _ => none := own_release_self _

theorem own_commit_of_ne (hu : u ≠ t) : (db.commit t).own u = db.own u := own_release_of_ne hu _

theorem own_rollback_of_ne (hu : u ≠ t) : (db.rollback t).own u = db.own u := own_release_of_ne hu _

/-- A key has one writer at a time. -/
theorem own_eq_none (hu : u ≠ t) (h : db.own u k = some v) : db.own t k = none := by
  rw [Option.eq_none_iff_forall_ne_some]
  intro w hw
  have he := (own_eq_some.mp h).symm.trans (own_eq_some.mp hw)
  exact hu (congrArg Prod.fst (Option.some.inj he))

/-- A key its transaction has not written keeps its committed row. -/
theorem committed_commit_of_none (h : db.own t k = none) :
    (db.commit t).committed k = db.committed k := by
  rw [committed_commit, Rows.over, h, Option.none_or]

/-- What one transaction has locked no other commit changes. -/
theorem committed_commit_of_own (hu : u ≠ t) (h : db.own u k = some v) :
    (db.commit t).committed k = db.committed k :=
  committed_commit_of_none (own_eq_none hu h)

end Database

end CloudHelp
