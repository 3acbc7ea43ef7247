import CloudHelp.DiscoveryClient

/-!
# How the discovery client shares its time

An attempt may take an equal share of what is left, so those after it are left at least as much
each. As long as no attempt overruns its budget, the loop is therefore never cut short, budgets
only grow, and the attempts together stay within the deadline.
-/

namespace CloudHelp.Discovery

open Manifest

variable {rt : Runtime} {world : World} {client : Client} {trusted : TrustedState} {ctx : Context}

/-! ## Settings -/

structure Configured (client : Client) (sources : List DiscoveryEndpoint) : Prop where
  rootKey : client.rootKey.length = publicKeySize
  attempts : 1 ≤ attemptLimit client sources ∧ attemptLimit client sources ≤ 16
  attemptTimeout : Duration.second ≤ attemptTimeoutOf client ∧
    attemptTimeoutOf client ≤ 30 * Duration.second
  overallTimeout : 5 * Duration.second ≤ overallTimeoutOf client ∧
    overallTimeoutOf client ≤ 5 * Duration.minute

theorem prepare_eq_ok {sources selected : List DiscoveryEndpoint} :
    prepare rt client sources = .ok selected ↔
      Configured client sources ∧ 1 ≤ sources.length ∧ sources.length ≤ 16 ∧
        checkSources rt [] sources = .ok () ∧ select rt client sources = selected := by
  constructor
  · intro h
    unfold prepare at h
    split_ifs at h with hroot hcount hlimit hattempt hoverall
    cases hcheck : checkSources rt [] sources with
    | error e =>
        rw [hcheck] at h
        cases h
    | ok u =>
        rw [hcheck] at h
        refine ⟨⟨?_, ?_, ?_, ?_⟩, ?_, ?_, rfl, Except.ok.inj h⟩ <;> omega
  · rintro ⟨⟨hroot, hlimit, hattempt, hoverall⟩, hpos, hmost, hcheck, hselect⟩
    unfold prepare
    rw [if_neg (by omega), if_neg (by omega), if_neg (by omega), if_neg (by omega),
      if_neg (by omega), hcheck, hselect]

theorem length_select (rt : Runtime) {sources : List DiscoveryEndpoint}
    (h : 1 ≤ attemptLimit client sources) :
    ((select rt client sources).length : ℤ) =
      min (attemptLimit client sources) sources.length := by
  unfold select
  dsimp only
  rw [SortSlice.length_run]
  split_ifs with hcut
  · rw [List.length_take, SortSlice.length_run]
    omega
  · rw [SortSlice.length_run]
    omega

theorem length_of_prepared {sources selected : List DiscoveryEndpoint}
    (h : prepare rt client sources = .ok selected) :
    1 ≤ selected.length ∧ selected.length ≤ 16 := by
  obtain ⟨hconfigured, hpos, hmost, _, rfl⟩ := prepare_eq_ok.mp h
  obtain ⟨hfirst, hlast⟩ := hconfigured.attempts
  have hlength := length_select rt hfirst
  omega

/-! ## Equal shares -/

/-- What an attempt may take leaves the others a share no smaller. -/
theorem share_of_rest {limit elapsed share spent : ℤ} {left : ℕ} (hspent : spent ≤ share)
    (hshare : (left + 1 : ℕ) * share ≤ limit - elapsed) :
    left * share ≤ limit - (elapsed + spent) := by
  rw [Nat.cast_add, Nat.cast_one, add_mul, one_mul] at hshare
  omega

theorem attemptBudget_le (elapsed : ℤ) (left : ℕ) :
    attemptBudget client ctx elapsed left ≤ attemptTimeoutOf client := by
  unfold attemptBudget
  dsimp only
  split_ifs <;> omega

theorem attemptBudget_fair {elapsed : ℤ} {left : ℕ} (hleft : 0 < left)
    (h : 0 ≤ deadline client ctx - elapsed) :
    left * attemptBudget client ctx elapsed left ≤ deadline client ctx - elapsed := by
  have hpos : (0 : ℤ) < left := by omega
  have hquotient : left * ((deadline client ctx - elapsed) / left) ≤
      deadline client ctx - elapsed :=
    Int.mul_ediv_self_le hpos.ne'
  unfold attemptBudget
  dsimp only
  rw [Int.tdiv_eq_ediv_of_nonneg h]
  split_ifs with hlt
  · exact hquotient
  · exact (mul_le_mul_of_nonneg_left (not_lt.mp hlt) hpos.le).trans hquotient

/-- A share that fits into the remaining time once for every mirror fits into the budget. -/
theorem le_attemptBudget {elapsed share : ℤ} {left : ℕ} (hleft : 0 < left) (hshare : 0 ≤ share)
    (hmost : share ≤ attemptTimeoutOf client)
    (hfits : left * share ≤ deadline client ctx - elapsed) :
    share ≤ attemptBudget client ctx elapsed left := by
  have hpos : (0 : ℤ) < left := by omega
  have hnonneg : 0 ≤ deadline client ctx - elapsed := (mul_nonneg hpos.le hshare).trans hfits
  unfold attemptBudget
  dsimp only
  rw [Int.tdiv_eq_ediv_of_nonneg hnonneg]
  split_ifs with hlt
  · apply (Int.le_ediv_iff_mul_le hpos).mpr
    rwa [mul_comm]
  · exact hmost

/-! ## The loop -/

/-- No attempt overruns its budget, and the caller cancels its context during none of them. -/
structure Timely (ctx : Context) (turns : List Attempt) : Prop where
  within : ∀ attempt ∈ turns, attempt.duration ≤ attempt.budget
  live : ∀ attempt ∈ turns, ∀ cancelled, ctx.cancelled = some cancelled →
    attempt.finished < cancelled

def firstAttempt (rt : Runtime) (world : World) (client : Client) (trusted : TrustedState)
    (ctx : Context) (index : ℕ) (elapsed : ℤ) (source : DiscoveryEndpoint) (left : ℕ) : Attempt :=
  ⟨source, elapsed, attemptBudget client ctx elapsed left, world.duration source,
    fetchOne rt world client trusted source (world.clock index)⟩

section Loop

variable {index : ℕ} {elapsed : ℤ} {failures : List Error} {source : DiscoveryEndpoint}
  {rest : List DiscoveryEndpoint}

theorem attempts_of_ok {document : Document} {nextState : TrustedState}
    (hbudget : 0 < attemptBudget client ctx elapsed (rest.length + 1))
    (h : fetchOne rt world client trusted source (world.clock index) = .ok (document, nextState)) :
    attempts rt world client trusted ctx index elapsed failures (source :: rest) =
      ([firstAttempt rt world client trusted ctx index elapsed source (rest.length + 1)],
        .ok ⟨document, nextState, source.id⟩) := by
  rw [attempts]
  dsimp only
  rw [if_neg hbudget.not_ge]
  simp only [h, firstAttempt]

theorem firstAttempt_mem (hbudget : 0 < attemptBudget client ctx elapsed (rest.length + 1)) :
    firstAttempt rt world client trusted ctx index elapsed source (rest.length + 1) ∈
      (attempts rt world client trusted ctx index elapsed failures (source :: rest)).1 := by
  rw [attempts]
  dsimp only
  rw [if_neg hbudget.not_ge]
  cases h : fetchOne rt world client trusted source (world.clock index) with
  | ok found => simp only [firstAttempt, h, List.mem_singleton]
  | error e =>
      dsimp only
      split_ifs
      · simp only [firstAttempt, h, List.mem_singleton]
      · simp only [firstAttempt, h, List.mem_cons, true_or]

theorem ended_eq_false {instant : ℤ} (hdeadline : instant < deadline client ctx)
    (hlive : ∀ cancelled, ctx.cancelled = some cancelled → instant < cancelled) :
    ended client ctx instant = false := by
  rw [ended, Bool.or_eq_false_iff, decide_eq_false_iff_not, not_le]
  refine ⟨hdeadline, ?_⟩
  cases hcancelled : ctx.cancelled with
  | none => rfl
  | some cancelled =>
      rw [Option.any_some, decide_eq_false_iff_not, not_le]
      exact hlive cancelled hcancelled

/-- After a failure that is over in time the loop goes on. -/
theorem attempts_of_error {e : Error}
    (hbudget : 0 < attemptBudget client ctx elapsed (rest.length + 1))
    (hfair : (rest.length + 1 : ℕ) * attemptBudget client ctx elapsed (rest.length + 1) ≤
      deadline client ctx - elapsed)
    (htimely : Timely ctx
      (attempts rt world client trusted ctx index elapsed failures (source :: rest)).1)
    (h : fetchOne rt world client trusted source (world.clock index) = .error e) :
    attempts rt world client trusted ctx index elapsed failures (source :: rest) =
      (firstAttempt rt world client trusted ctx index elapsed source (rest.length + 1) ::
          (attempts rt world client trusted ctx (index + 1) (elapsed + world.duration source)
            (failures ++ [.wrap "%s: %w" [.text source.id] e]) rest).1,
        (attempts rt world client trusted ctx (index + 1) (elapsed + world.duration source)
            (failures ++ [.wrap "%s: %w" [.text source.id] e]) rest).2) := by
  have hfirst : firstAttempt rt world client trusted ctx index elapsed source (rest.length + 1) ∈
      (attempts rt world client trusted ctx index elapsed failures (source :: rest)).1 :=
    firstAttempt_mem hbudget
  have hwithin : (world.duration source : ℤ) ≤ attemptBudget client ctx elapsed (rest.length + 1) :=
    htimely.within _ hfirst
  have hlive : ∀ cancelled, ctx.cancelled = some cancelled →
      elapsed + world.duration source < cancelled := htimely.live _ hfirst
  rw [attempts]
  dsimp only
  rw [if_neg hbudget.not_ge]
  simp only [h, firstAttempt, Attempt.finished]
  split_ifs with hended
  · -- time can run out only together with the list
    cases rest with
    | nil => simp [attempts]
    | cons next others =>
        have hleft := share_of_rest hwithin hfair
        have hpos : 0 < ((next :: others).length : ℤ) *
            attemptBudget client ctx elapsed ((next :: others).length + 1) :=
          mul_pos (by rw [List.length_cons]; omega) hbudget
        rw [ended_eq_false ?_ hlive] at hended
        · cases hended
        · omega
  · rfl

theorem Timely.tail {attempt : Attempt} {turns : List Attempt} (h : Timely ctx (attempt :: turns)) :
    Timely ctx turns :=
  ⟨fun a ha => h.within a (List.mem_cons_of_mem _ ha),
    fun a ha => h.live a (List.mem_cons_of_mem _ ha)⟩

theorem budget_of_fits {share : ℤ} (hshare : 0 < share) (hmost : share ≤ attemptTimeoutOf client)
    (hfits : (rest.length + 1 : ℕ) * share ≤ deadline client ctx - elapsed) :
    share ≤ attemptBudget client ctx elapsed (rest.length + 1) ∧
      (rest.length + 1 : ℕ) * attemptBudget client ctx elapsed (rest.length + 1) ≤
        deadline client ctx - elapsed := by
  have hnonneg : 0 ≤ deadline client ctx - elapsed :=
    (mul_nonneg (by omega) hshare.le).trans hfits
  exact ⟨le_attemptBudget (Nat.succ_pos _) hshare.le hmost hfits,
    attemptBudget_fair (Nat.succ_pos _) hnonneg⟩

/-- One failure of the loop: the budget is a share that the rest of the time holds for each of the
others. -/
theorem attempts_step {e : Error} {share : ℤ} (hshare : 0 < share)
    (hmost : share ≤ attemptTimeoutOf client)
    (hfits : (rest.length + 1 : ℕ) * share ≤ deadline client ctx - elapsed)
    (htimely : Timely ctx
      (attempts rt world client trusted ctx index elapsed failures (source :: rest)).1)
    (h : fetchOne rt world client trusted source (world.clock index) = .error e) :
    ∃ later, attempts rt world client trusted ctx (index + 1) (elapsed + world.duration source)
        (failures ++ [.wrap "%s: %w" [.text source.id] e]) rest = later ∧
      attempts rt world client trusted ctx index elapsed failures (source :: rest) =
        (firstAttempt rt world client trusted ctx index elapsed source (rest.length + 1) :: later.1,
          later.2) ∧
      rest.length * attemptBudget client ctx elapsed (rest.length + 1) ≤
        deadline client ctx - (elapsed + world.duration source) ∧
      Timely ctx later.1 := by
  obtain ⟨hbudget, hfair⟩ := budget_of_fits hshare hmost hfits
  have hstep := attempts_of_error (hshare.trans_le hbudget) hfair htimely h
  have hspent : (world.duration source : ℤ) ≤ attemptBudget client ctx elapsed (rest.length + 1) :=
    htimely.within _ (firstAttempt_mem (hshare.trans_le hbudget))
  refine ⟨_, rfl, hstep, share_of_rest hspent hfair, ?_⟩
  rw [hstep] at htimely
  exact htimely.tail

/-- The attempts are made for all mirrors, with budgets that never shrink below a share, and stay
within the remaining time. -/
structure Shared (sources : List DiscoveryEndpoint) (share remaining : ℤ) (turns : List Attempt) :
    Prop where
  every : turns.map Attempt.source = sources
  fair : ∀ attempt ∈ turns, share ≤ attempt.budget
  growing : turns.Pairwise fun earlier later => earlier.budget ≤ later.budget
  total : ((turns.map Attempt.duration).sum : ℤ) ≤ remaining

/-- By induction on the mirrors: the budget of the first attempt is a share for those after it. -/
theorem attempts_shared {sources : List DiscoveryEndpoint} {share : ℤ} (hshare : 0 < share)
    (hmost : share ≤ attemptTimeoutOf client)
    (hfits : sources.length * share ≤ deadline client ctx - elapsed)
    (htimely : Timely ctx (attempts rt world client trusted ctx index elapsed failures sources).1)
    (hfail : ∀ attempt ∈ (attempts rt world client trusted ctx index elapsed failures sources).1,
      attempt.outcome.isOk = false) :
    Shared sources share (deadline client ctx - elapsed)
      (attempts rt world client trusted ctx index elapsed failures sources).1 := by
  induction sources generalizing index elapsed failures share with
  | nil =>
      rw [List.length_nil, Nat.cast_zero, zero_mul] at hfits
      exact ⟨rfl, fun _ h => absurd h List.not_mem_nil, List.Pairwise.nil, hfits⟩
  | cons source rest ih =>
      rw [List.length_cons] at hfits
      have hbudget := (budget_of_fits hshare hmost hfits).1
      obtain ⟨e, he⟩ := exists_of_isOk_false
        (hfail _ (firstAttempt_mem (hshare.trans_le hbudget)))
      obtain ⟨later, hlater, hstep, hleft, htail⟩ := attempts_step hshare hmost hfits htimely he
      rw [hstep] at hfail ⊢
      rw [← hlater] at htail hfail ⊢
      obtain ⟨hevery, hlarger, hgrowing, htotal⟩ := ih (hshare.trans_le hbudget)
        (attemptBudget_le elapsed (rest.length + 1)) hleft htail
        (fun a ha => hfail a (List.mem_cons_of_mem _ ha))
      constructor
      · rw [List.map_cons, hevery]
        rfl
      · intro attempt hmem
        rcases List.mem_cons.mp hmem with rfl | hmem
        · exact hbudget
        · exact hbudget.trans (hlarger attempt hmem)
      · exact List.pairwise_cons.mpr ⟨hlarger, hgrowing⟩
      · rw [List.map_cons, List.sum_cons, Nat.cast_add]
        change (world.duration source : ℤ) + _ ≤ _
        omega

end Loop

/-- Slow mirrors cannot starve the later ones: every selected mirror is attempted, with a budget
of at least an equal share of the overall timeout. -/
theorem fetch_shares_time {sources selected : List DiscoveryEndpoint}
    (hprepare : prepare rt client sources = .ok selected)
    (hcaller : ∀ callerDeadline, ctx.deadline = some callerDeadline →
      overallTimeoutOf client ≤ callerDeadline)
    (htimely : Timely ctx (fetch rt world client trusted ctx sources).1)
    (hfail : ∀ attempt ∈ (fetch rt world client trusted ctx sources).1,
      attempt.outcome.isOk = false) :
    (fetch rt world client trusted ctx sources).1.map Attempt.source = selected ∧
      (∀ attempt ∈ (fetch rt world client trusted ctx sources).1,
        min (attemptTimeoutOf client) (overallTimeoutOf client / selected.length) ≤
          attempt.budget) ∧
      (fetch rt world client trusted ctx sources).1.Pairwise
        (fun earlier later => earlier.budget ≤ later.budget) ∧
      (((fetch rt world client trusted ctx sources).1.map Attempt.duration).sum : ℤ) ≤
        overallTimeoutOf client := by
  have hdeadline : deadline client ctx = overallTimeoutOf client := by
    unfold deadline
    cases hd : ctx.deadline with
    | none => rfl
    | some callerDeadline => exact min_eq_right (hcaller callerDeadline hd)
  obtain ⟨hpos, hmost⟩ := length_of_prepared hprepare
  obtain ⟨_, _, hattempt, hoverall⟩ := (prepare_eq_ok.mp hprepare).1
  simp only [fetch, hprepare] at htimely hfail ⊢
  have hcount : (0 : ℤ) < selected.length := by omega
  have hshare : 0 < min (attemptTimeoutOf client) (overallTimeoutOf client / selected.length) := by
    have hfraction : 1 ≤ overallTimeoutOf client / selected.length := by
      apply (Int.le_ediv_iff_mul_le hcount).mpr
      unfold Duration.second at hoverall
      omega
    unfold Duration.second at hattempt
    omega
  have hfits : selected.length * min (attemptTimeoutOf client)
      (overallTimeoutOf client / selected.length) ≤ deadline client ctx - 0 := by
    rw [hdeadline, sub_zero]
    exact (mul_le_mul_of_nonneg_left (min_le_right _ _) hcount.le).trans
      (Int.mul_ediv_self_le hcount.ne')
  obtain ⟨hevery, hfair, hgrowing, htotal⟩ :=
    attempts_shared hshare (min_le_left _ _) hfits htimely hfail
  rw [hdeadline, sub_zero] at htotal
  exact ⟨hevery, hfair, hgrowing, htotal⟩

namespace Sample

def mirror (id : String) (priority : UInt16) : DiscoveryEndpoint :=
  ⟨str id, str "https://mirror", priority⟩

def defaults : Client := ⟨List.replicate 32 9, 0, 0, 0⟩

def unreachable (duration : ℕ) : World where
  equalFold s t := s = t
  parseMediaType s := some s
  exchange _ := ⟨none, .error (.library "i/o timeout")⟩
  duration _ := duration
  clock _ := 0

def mirrors : List DiscoveryEndpoint := [mirror "b" 2, mirror "a" 2, mirror "c" 1]

def slow : List Attempt × Except Failure Result :=
  fetch .toy (unreachable 12000000000) defaults .empty .background mirrors

end Sample

/-- Three mirrors that use up their twelve seconds. -/
theorem fetch_shares_time_slow :
    prepare .toy Sample.defaults Sample.mirrors =
        .ok [Sample.mirror "c" 1, Sample.mirror "a" 2, Sample.mirror "b" 2] ∧
      Sample.slow.1.map Attempt.source =
        [Sample.mirror "c" 1, Sample.mirror "a" 2, Sample.mirror "b" 2] := by
  have hprepare : prepare .toy Sample.defaults Sample.mirrors =
      .ok [Sample.mirror "c" 1, Sample.mirror "a" 2, Sample.mirror "b" 2] := by decide
  have htimely : Timely .background Sample.slow.1 :=
    ⟨by decide, fun _ _ _ hcancelled => by cases hcancelled⟩
  refine ⟨hprepare, ?_⟩
  exact (fetch_shares_time hprepare (fun _ hdeadline => by cases hdeadline) htimely
    (by decide)).1

end CloudHelp.Discovery
