import Mathlib

/-!
# Rows grouped by a key

The `GROUP BY` of SQL on a list of rows: each key that occurs, once, with the rows that have it, in
the order of the table. Every row is in exactly one group, so what is counted group by group adds up
to what is counted over the table.
-/

namespace CloudHelp

variable {α K : Type} [DecidableEq K]

def groupBy (key : α → K) (rows : List α) : List (K × List α) :=
  (rows.map key).dedup.map fun k => (k, rows.filter fun row => key row = k)

theorem map_fst_groupBy (key : α → K) (rows : List α) :
    (groupBy key rows).map Prod.fst = (rows.map key).dedup := by
  simp [groupBy, Function.comp_def]

theorem nodup_fst_groupBy (key : α → K) (rows : List α) :
    ((groupBy key rows).map Prod.fst).Nodup := by
  rw [map_fst_groupBy]
  exact List.nodup_dedup _

theorem mem_groupBy {key : α → K} {rows : List α} {g : K × List α} :
    g ∈ groupBy key rows ↔ (∃ row ∈ rows, key row = g.1) ∧ g.2 = rows.filter (key · = g.1) := by
  obtain ⟨k, members⟩ := g
  simp only [groupBy, List.mem_map, List.mem_dedup, Prod.mk.injEq]
  constructor
  · rintro ⟨k, hk, rfl, rfl⟩
    exact ⟨hk, rfl⟩
  · rintro ⟨hk, hmembers⟩
    exact ⟨k, hk, rfl, hmembers.symm⟩

/-- A key is listed only where a row has it. -/
theorem exists_row_of_mem_groupBy {key : α → K} {rows : List α} {g : K × List α}
    (h : g ∈ groupBy key rows) : ∃ row ∈ g.2, row ∈ rows ∧ key row = g.1 := by
  obtain ⟨⟨row, hrow, hkey⟩, hmembers⟩ := mem_groupBy.mp h
  refine ⟨row, ?_, hrow, hkey⟩
  rw [hmembers, List.mem_filter]
  exact ⟨hrow, by simpa using hkey⟩

theorem length_pos_of_mem_groupBy {key : α → K} {rows : List α} {g : K × List α}
    (h : g ∈ groupBy key rows) : 0 < g.2.length := by
  obtain ⟨row, hrow, -, -⟩ := exists_row_of_mem_groupBy h
  exact List.length_pos_of_mem hrow

theorem sum_count_of_subset {keys l : List K} (hkeys : keys.Nodup) (hsub : ∀ k ∈ l, k ∈ keys) :
    (keys.map l.count).sum = l.length := by
  rw [← List.sum_toFinset _ hkeys]
  have hcard := Multiset.sum_count_eq_card (s := keys.toFinset) (m := (l : Multiset K))
    fun k hk => List.mem_toFinset.mpr (hsub k (Multiset.mem_coe.mp hk))
  simpa using hcard

/-- The groups together hold every row once. -/
theorem sum_countP_groupBy (p : α → Bool) (key : α → K) (rows : List α) :
    ((groupBy key rows).map fun g => g.2.countP p).sum = rows.countP p := by
  have hcount : ∀ k, (rows.filter fun row => key row = k).countP p =
      ((rows.filter p).map key).count k := by
    intro k
    rw [List.countP_filter, List.count, List.countP_map, List.countP_filter]
    apply List.countP_congr
    intro row _
    simp [and_comm]
  have hsum : ((rows.map key).dedup.map ((rows.filter p).map key).count).sum =
      ((rows.filter p).map key).length := by
    apply sum_count_of_subset (List.nodup_dedup _)
    intro k hk
    obtain ⟨row, hrow, rfl⟩ := List.mem_map.mp hk
    exact List.mem_dedup.mpr (List.mem_map_of_mem (List.mem_of_mem_filter hrow))
  rw [List.length_map, ← List.countP_eq_length_filter] at hsum
  rw [← hsum, groupBy, List.map_map]
  congr 1
  apply List.map_congr_left
  intro k _
  exact hcount k

theorem sum_length_groupBy (key : α → K) (rows : List α) :
    ((groupBy key rows).map fun g => g.2.length).sum = rows.length := by
  have h := sum_countP_groupBy (fun _ => true) key rows
  simpa using h

/-- Values that depend on a key are at most as many as the keys. -/
theorem length_dedup_map_le {β : Type} [DecidableEq β] {key : α → K} {value : α → β}
    {rows : List α} (h : ∀ a ∈ rows, ∀ b ∈ rows, key a = key b → value a = value b) :
    (rows.map value).dedup.length ≤ (rows.map key).dedup.length := by
  induction rows with
  | nil => simp
  | cons a rows ih =>
      have hrest := ih fun b hb c hc =>
        h b (List.mem_cons_of_mem _ hb) c (List.mem_cons_of_mem _ hc)
      rw [List.map_cons, List.map_cons]
      by_cases hvalue : value a ∈ rows.map value
      · rw [List.dedup_cons_of_mem hvalue]
        by_cases hkey : key a ∈ rows.map key
        · rwa [List.dedup_cons_of_mem hkey]
        · rw [List.dedup_cons_of_notMem hkey, List.length_cons]
          omega
      · -- a new value comes with a new key
        have hkey : key a ∉ rows.map key := by
          intro hmem
          obtain ⟨b, hb, hkeys⟩ := List.mem_map.mp hmem
          apply hvalue
          rw [← h b (List.mem_cons_of_mem _ hb) a List.mem_cons_self hkeys]
          exact List.mem_map_of_mem hb
        rw [List.dedup_cons_of_notMem hvalue, List.dedup_cons_of_notMem hkey, List.length_cons,
          List.length_cons]
        omega

end CloudHelp
