import CloudHelp.GoValues

/-!
# An unstable sort

`sort.Slice` promises a reordering of its input that is sorted by `less`, and nothing about the
order of elements that compare equal. A `SortSlice` is any function that keeps this promise. Where
no two elements compare equal the result is determined, whatever the sort and whatever the order
of its input (`SortSlice.run_eq_of_perm`).
-/

namespace CloudHelp

variable {α : Type}

structure StrictWeak (less : α → α → Bool) : Prop where
  asymm : ∀ a b, less a b = true → less b a = false
  trans : ∀ a b c, less b a = false → less c b = false → less c a = false

def Separates (less : α → α → Bool) (l : List α) : Prop :=
  ∀ a ∈ l, ∀ b ∈ l, less a b = false → less b a = false → a = b

theorem Separates.perm {less : α → α → Bool} {l m : List α} (h : Separates less l)
    (hp : l.Perm m) : Separates less m :=
  fun a ha b hb => h a (hp.mem_iff.mpr ha) b (hp.mem_iff.mpr hb)

structure SortSlice where
  run : ∀ {α : Type}, (α → α → Bool) → List α → List α
  perm : ∀ {α : Type} (less : α → α → Bool) (l : List α), (run less l).Perm l
  sorted : ∀ {α : Type} {less : α → α → Bool}, StrictWeak less → ∀ l : List α,
    (run less l).Pairwise fun a b => less b a = false

namespace SortSlice

variable (S : SortSlice) {less : α → α → Bool}

@[simp] theorem mem_run {l : List α} {a : α} : a ∈ S.run less l ↔ a ∈ l :=
  (S.perm less l).mem_iff

@[simp] theorem length_run (l : List α) : (S.run less l).length = l.length :=
  (S.perm less l).length_eq

/-- The sorted order of distinguishable elements does not depend on how they came in. -/
theorem run_eq_of_perm (hw : StrictWeak less) {l m : List α} (hs : Separates less l)
    (hp : l.Perm m) : S.run less l = S.run less m := by
  refine List.Perm.eq_of_pairwise ?_ (S.sorted hw l) (S.sorted hw m) ?_
  · intro a b ha hb hab hba
    rw [mem_run] at ha hb
    exact hs a ha b (hp.mem_iff.mpr hb) hba hab
  · exact (S.perm less l).trans (hp.trans (S.perm less m).symm)

/-- Distinguishable elements come out in strict order. -/
theorem run_strict (hw : StrictWeak less) {l : List α} (hs : Separates less l) (hn : l.Nodup) :
    (S.run less l).Pairwise fun a b => less a b = true := by
  have hdistinct : (S.run less l).Nodup := (S.perm less l).nodup_iff.mpr hn
  refine ((S.sorted hw l).and hdistinct).imp_of_mem fun {a b} ha hb hab => ?_
  rw [mem_run] at ha hb
  by_contra hless
  rw [Bool.not_eq_true] at hless
  exact hab.2 (hs a ha b hb hless hab.1)

end SortSlice

/-! ## Comparing by a number and then by a string -/

/-- `if a.n == b.n { return a.s < b.s }; return a.n < b.n` -/
def lessBy (n : α → ℕ) (s : α → Bytes) (a b : α) : Bool :=
  if n a = n b then decide (s a < s b) else decide (n a < n b)

theorem lessBy_eq_false {n : α → ℕ} {s : α → Bytes} {a b : α} :
    lessBy n s a b = false ↔ n b < n a ∨ n a = n b ∧ ¬ s a < s b := by
  unfold lessBy
  split_ifs with h
  · simp [h]
  · simp [h]
    omega

theorem strictWeak_lessBy (n : α → ℕ) (s : α → Bytes) : StrictWeak (lessBy n s) where
  asymm a b h := by
    rw [← Bool.not_eq_false, lessBy_eq_false] at h
    rw [lessBy_eq_false]
    grind
  trans a b c hab hbc := by
    rw [lessBy_eq_false] at hab hbc ⊢
    grind

theorem separates_lessBy {n : α → ℕ} {s : α → Bytes} {l : List α} (h : Set.InjOn s {a | a ∈ l}) :
    Separates (lessBy n s) l := by
  intro a ha b hb hab hba
  rw [lessBy_eq_false] at hab hba
  apply h ha hb
  grind

/-! ## A sort -/

/-- Insertion sort, as `sort.Slice` runs it on short slices. -/
def insertionSort : SortSlice where
  run less l := l.insertionSort fun a b => less b a = false
  perm less l := List.perm_insertionSort _ l
  sorted {α less} hw l := by
    have htotal : Std.Total fun a b : α => less b a = false := by
      constructor
      intro a b
      cases h : less b a with
      | false => exact Or.inl rfl
      | true => exact Or.inr (hw.asymm b a h)
    have htrans : IsTrans α fun a b => less b a = false := by
      constructor
      intro a b c hab hbc
      exact hw.trans a b c hab hbc
    exact List.pairwise_insertionSort _ l

end CloudHelp
