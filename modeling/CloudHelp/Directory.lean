import Mathlib

/-!
# Names, files and what they hold

A directory maps names to files, and a file has one content under all of its names. Binding a name
to a file that has another name is what a hard link does.
-/

namespace CloudHelp

theorem update_eq_some {K I : Type} [DecidableEq K] {f : K → Option I} {key other : K}
    {value found : I} : Function.update f key (some value) other = some found ↔
      other = key ∧ value = found ∨ other ≠ key ∧ f other = some found := by
  by_cases h : other = key
  · subst h
    simp
  · simp [h]

structure Directory (K I D : Type) where
  entries : K → Option I
  contents : I → D

namespace Directory

variable {K I D : Type} {dir : Directory K I D} {name other : K} {file found : I} {content : D}

/-! ## Names -/

section Names

variable [DecidableEq K]

def bind (dir : Directory K I D) (name : K) (file : I) : Directory K I D :=
  { dir with entries := Function.update dir.entries name (some file) }

def unbind (dir : Directory K I D) (name : K) : Directory K I D :=
  { dir with entries := Function.update dir.entries name none }

@[simp] theorem contents_bind : (dir.bind name file).contents = dir.contents := rfl

@[simp] theorem contents_unbind : (dir.unbind name).contents = dir.contents := rfl

@[simp] theorem entries_bind_self : (dir.bind name file).entries name = some file :=
  Function.update_self _ _ _

theorem entries_bind_of_ne (h : other ≠ name) :
    (dir.bind name file).entries other = dir.entries other :=
  Function.update_of_ne h _ _

@[simp] theorem entries_unbind_self : (dir.unbind name).entries name = none :=
  Function.update_self _ _ _

theorem entries_unbind_of_ne (h : other ≠ name) :
    (dir.unbind name).entries other = dir.entries other :=
  Function.update_of_ne h _ _

theorem entries_bind_eq_some : (dir.bind name file).entries other = some found ↔
    other = name ∧ file = found ∨ other ≠ name ∧ dir.entries other = some found :=
  update_eq_some

theorem entries_unbind_eq_some : (dir.unbind name).entries other = some found ↔
    other ≠ name ∧ dir.entries other = some found := by
  by_cases h : other = name
  · subst h
    simp
  · simp [h, entries_unbind_of_ne h]

end Names

/-! ## Contents -/

section Contents

variable [DecidableEq I]

def write (dir : Directory K I D) (file : I) (content : D) : Directory K I D :=
  { dir with contents := Function.update dir.contents file content }

@[simp] theorem entries_write : (dir.write file content).entries = dir.entries := rfl

@[simp] theorem contents_write_self : (dir.write file content).contents file = content :=
  Function.update_self _ _ _

theorem contents_write_of_ne (h : found ≠ file) :
    (dir.write file content).contents found = dir.contents found :=
  Function.update_of_ne h _ _

end Contents

end Directory

end CloudHelp
