import CloudHelp.ClientRun
import CloudHelp.DiscoveryBudget

/-!
# Which mirror the discovery client ends up with

Without deadlines the loop is a search: mirrors are asked in the order of their priorities and
identifiers until one of them verifies. The order in which the sources were given does not matter,
and the mirror list of every document that verifies is one that `Fetch` accepts.
-/

namespace CloudHelp.Discovery

open Manifest

variable {rt : Runtime} {world : World} {client : Client} {trusted : TrustedState} {ctx : Context}

/-! ## A mirror that verifies -/

/-- The mirror answers in due form, and `Verify` accepts its envelope. -/
def Verifies (rt : Runtime) (world : World) (client : Client) (trusted : TrustedState)
    (source : DiscoveryEndpoint) (now : ℤ) (document : Document) (nextState : TrustedState) :
    Prop :=
  ∃ parsed response envelope, validateSource rt source = .ok parsed ∧
    (world.exchange source).invalid = none ∧ (world.exchange source).answer = .ok response ∧
    sameOrigin world parsed response = true ∧ response.statusCode = 200 ∧
    isJSON world response = true ∧ decodeEnvelope rt response.body = .ok envelope ∧
    verify rt envelope client.rootKey now trusted = (.ok document, nextState)

theorem readResponse_eq_ok {parsed : URL} {now : ℤ} {response : Response} {document : Document}
    {nextState : TrustedState} :
    readResponse rt world client trusted parsed now response = .ok (document, nextState) ↔
      sameOrigin world parsed response = true ∧ response.statusCode = 200 ∧
        isJSON world response = true ∧ ∃ envelope, decodeEnvelope rt response.body = .ok envelope ∧
          verify rt envelope client.rootKey now trusted = (.ok document, nextState) := by
  unfold readResponse
  constructor
  · intro h
    split_ifs at h with horigin hstatus hjson
    rw [Bool.not_eq_false] at horigin hjson
    rw [not_not] at hstatus
    refine ⟨horigin, hstatus, hjson, ?_⟩
    cases hdecode : decodeEnvelope rt response.body with
    | error e =>
        rw [hdecode] at h
        cases h
    | ok envelope =>
        simp only [hdecode] at h
        refine ⟨envelope, rfl, ?_⟩
        cases hverify : verify rt envelope client.rootKey now trusted with
        | mk result state =>
            simp only [hverify] at h
            cases result with
            | error e => cases h
            | ok found =>
                cases h
                rfl
  · rintro ⟨horigin, hstatus, hjson, envelope, hdecode, hverify⟩
    simp [horigin, hstatus, hjson, hdecode, hverify]

theorem fetchOne_eq_ok {source : DiscoveryEndpoint} {now : ℤ} {document : Document}
    {nextState : TrustedState} :
    fetchOne rt world client trusted source now = .ok (document, nextState) ↔
      Verifies rt world client trusted source now document nextState := by
  unfold fetchOne Verifies
  cases hsource : validateSource rt source with
  | error e => simp
  | ok parsed =>
      cases hinvalid : (world.exchange source).invalid with
      | some e => simp
      | none =>
          cases hanswer : (world.exchange source).answer with
          | error e => simp
          | ok response =>
              dsimp only
              rw [readResponse_eq_ok]
              constructor
              · rintro ⟨horigin, hstatus, hjson, envelope, hdecode, hverify⟩
                exact ⟨parsed, response, envelope, rfl, rfl, rfl, horigin, hstatus, hjson, hdecode,
                  hverify⟩
              · rintro ⟨_, _, envelope, hp, _, ha, horigin, hstatus, hjson, hdecode, hverify⟩
                cases hp
                cases ha
                exact ⟨horigin, hstatus, hjson, envelope, hdecode, hverify⟩

def Fails (rt : Runtime) (world : World) (client : Client) (trusted : TrustedState)
    (source : DiscoveryEndpoint) (now : ℤ) : Prop :=
  ∀ document nextState, ¬ Verifies rt world client trusted source now document nextState

theorem fails_of_error {source : DiscoveryEndpoint} {now : ℤ} {e : Error}
    (h : fetchOne rt world client trusted source now = .error e) :
    Fails rt world client trusted source now := by
  intro document nextState hverifies
  rw [← fetchOne_eq_ok, h] at hverifies
  cases hverifies

/-! ## The search -/

/-- The mirrors before the first one that verifies, and that one, are asked; or all are, in vain. -/
def Searches (rt : Runtime) (world : World) (client : Client) (trusted : TrustedState) (index : ℕ)
    (selected : List DiscoveryEndpoint) (turns : List Attempt) (result : Except Failure Result) :
    Prop :=
  (∃ failed source rest document nextState, selected = failed ++ source :: rest ∧
    (∀ i s, failed[i]? = some s → Fails rt world client trusted s (world.clock (index + i))) ∧
    Verifies rt world client trusted source (world.clock (index + failed.length)) document
      nextState ∧
    turns.map Attempt.source = failed ++ [source] ∧
    result = .ok ⟨document, nextState, source.id⟩) ∨
  ((∀ i s, selected[i]? = some s → Fails rt world client trusted s (world.clock (index + i))) ∧
    turns.map Attempt.source = selected ∧ ∃ failure, result = .error failure)

theorem fails_cons {index : ℕ} {source : DiscoveryEndpoint} {rest : List DiscoveryEndpoint}
    (hfirst : Fails rt world client trusted source (world.clock index))
    (hrest : ∀ i s, rest[i]? = some s →
      Fails rt world client trusted s (world.clock (index + 1 + i))) :
    ∀ i s, (source :: rest)[i]? = some s →
      Fails rt world client trusted s (world.clock (index + i)) := by
  intro i s hs
  cases i with
  | zero =>
      rw [List.getElem?_cons_zero] at hs
      exact Option.some.inj hs ▸ hfirst
  | succ i =>
      rw [List.getElem?_cons_succ] at hs
      have := hrest i s hs
      rwa [show index + 1 + i = index + (i + 1) by omega] at this

theorem Searches.cons {index : ℕ} {source : DiscoveryEndpoint} {rest : List DiscoveryEndpoint}
    {turns : List Attempt} {result : Except Failure Result} {attempt : Attempt}
    (hfirst : Fails rt world client trusted source (world.clock index))
    (hsource : attempt.source = source)
    (h : Searches rt world client trusted (index + 1) rest turns result) :
    Searches rt world client trusted index (source :: rest) (attempt :: turns) result := by
  rcases h with ⟨failed, found, others, document, nextState, rfl, hfailed, hfound, hturns,
    hresult⟩ |
    ⟨hfailed, hturns, hresult⟩
  · refine Or.inl ⟨source :: failed, found, others, document, nextState, rfl,
      fails_cons hfirst hfailed, ?_, ?_, hresult⟩
    · rwa [List.length_cons, show index + (failed.length + 1) = index + 1 + failed.length by omega]
    · rw [List.map_cons, hturns, hsource]
      rfl
  · refine Or.inr ⟨fails_cons hfirst hfailed, ?_, hresult⟩
    rw [List.map_cons, hturns, hsource]

/-- By induction on the mirrors, as long as there is time for each of them. -/
theorem attempts_search {sources : List DiscoveryEndpoint} {index : ℕ} {elapsed share : ℤ}
    {failures : List Error} (hshare : 0 < share) (hmost : share ≤ attemptTimeoutOf client)
    (hfits : sources.length * share ≤ deadline client ctx - elapsed)
    (htimely : Timely ctx (attempts rt world client trusted ctx index elapsed failures sources).1) :
    Searches rt world client trusted index sources
      (attempts rt world client trusted ctx index elapsed failures sources).1
      (attempts rt world client trusted ctx index elapsed failures sources).2 := by
  induction sources generalizing index elapsed share failures with
  | nil =>
      refine Or.inr ⟨fun i s hs => ?_, rfl, _, rfl⟩
      rw [List.getElem?_nil] at hs
      cases hs
  | cons source rest ih =>
      rw [List.length_cons] at hfits
      have hbudget := (budget_of_fits hshare hmost hfits).1
      cases hone : fetchOne rt world client trusted source (world.clock index) with
      | ok found =>
          obtain ⟨document, nextState⟩ := found
          rw [attempts_of_ok (hshare.trans_le hbudget) hone]
          refine Or.inl ⟨[], source, rest, document, nextState, rfl, fun i s hs => ?_,
            fetchOne_eq_ok.mp hone, rfl, rfl⟩
          rw [List.getElem?_nil] at hs
          cases hs
      | error e =>
          obtain ⟨later, hlater, hstep, hleft, htail⟩ :=
            attempts_step hshare hmost hfits htimely hone
          rw [hstep]
          rw [← hlater] at htail ⊢
          exact (ih (hshare.trans_le hbudget) (attemptBudget_le elapsed (rest.length + 1)) hleft
            htail).cons (fails_of_error hone) rfl

/-- Attempts follow one another. -/
theorem attempts_sequential (rt : Runtime) (world : World) (client : Client)
    (trusted : TrustedState)
    (ctx : Context) (sources : List DiscoveryEndpoint) (index : ℕ) (elapsed : ℤ)
    (failures : List Error) :
    (∀ attempt ∈ (attempts rt world client trusted ctx index elapsed failures sources).1,
      elapsed ≤ attempt.started) ∧
    (attempts rt world client trusted ctx index elapsed failures sources).1.Pairwise
      fun earlier later => earlier.finished ≤ later.started := by
  induction sources generalizing index elapsed failures with
  | nil => exact ⟨fun _ h => absurd h List.not_mem_nil, List.Pairwise.nil⟩
  | cons source rest ih =>
      rw [attempts]
      dsimp only
      by_cases hbudget : attemptBudget client ctx elapsed (rest.length + 1) ≤ 0
      · rw [if_pos hbudget]
        exact ⟨fun _ h => absurd h List.not_mem_nil, List.Pairwise.nil⟩
      · rw [if_neg hbudget]
        cases hone : fetchOne rt world client trusted source (world.clock index) with
        | ok found =>
            dsimp only
            exact ⟨fun a ha => (List.mem_singleton.mp ha) ▸ le_rfl, List.pairwise_singleton _ _⟩
        | error e =>
            dsimp only
            split_ifs
            · exact ⟨fun a ha => (List.mem_singleton.mp ha) ▸ le_rfl, List.pairwise_singleton _ _⟩
            · obtain ⟨hstarted, hordered⟩ := ih (index + 1) (elapsed + world.duration source)
                (failures ++ [.wrap "%s: %w" [.text source.id] e])
              refine ⟨fun a ha => ?_, List.pairwise_cons.mpr ⟨hstarted, hordered⟩⟩
              rcases List.mem_cons.mp ha with rfl | ha
              · exact le_rfl
              · have := hstarted a ha
                omega

/-! ## The list of sources -/

structure Acceptable (rt : Runtime) (source : DiscoveryEndpoint) : Prop where
  id : sourceIDPattern source.id = true
  priority : ¬(source.priority = 0 ∨ 1000 < source.priority)
  url : ∃ parsed, validateSource rt source = .ok parsed

theorem checkSources_eq_ok {seenIDs : List Bytes} {sources : List DiscoveryEndpoint} :
    checkSources rt seenIDs sources = .ok () ↔
      (∀ source ∈ sources, Acceptable rt source) ∧
        (sources.map DiscoveryEndpoint.id).Nodup ∧ ∀ source ∈ sources, source.id ∉ seenIDs := by
  induction sources generalizing seenIDs with
  | nil => simp [checkSources]
  | cons source rest ih =>
      constructor
      · intro h
        rw [checkSources] at h
        split_ifs at h with hid hpriority hseen
        cases hurl : validateSource rt source with
        | error e =>
            rw [hurl] at h
            cases h
        | ok parsed =>
            simp only [hurl] at h
            obtain ⟨hacceptable, hnodup, hfresh⟩ := ih.mp h
            refine ⟨?_, ?_, ?_⟩
            · rw [List.forall_mem_cons]
              exact ⟨⟨Bool.not_eq_false _ ▸ hid, hpriority, parsed, hurl⟩, hacceptable⟩
            · rw [List.map_cons, List.nodup_cons, List.mem_map]
              refine ⟨?_, hnodup⟩
              rintro ⟨other, hmem, he⟩
              exact hfresh other hmem (he ▸ List.mem_cons_self)
            · rw [List.forall_mem_cons]
              exact ⟨hseen, fun other hmem hold => hfresh other hmem (List.mem_cons_of_mem _ hold)⟩
      · rintro ⟨hacceptable, hnodup, hfresh⟩
        obtain ⟨⟨hid, hpriority, parsed, hurl⟩, hacceptable⟩ := List.forall_mem_cons.mp hacceptable
        obtain ⟨hseen, hfresh⟩ := List.forall_mem_cons.mp hfresh
        rw [List.map_cons, List.nodup_cons] at hnodup
        rw [checkSources, if_neg (by simp [hid]), if_neg hpriority, if_neg hseen, hurl]
        refine ih.mpr ⟨hacceptable, hnodup.2, fun other hmem hold => ?_⟩
        rcases List.mem_cons.mp hold with he | hold
        · exact hnodup.1 (List.mem_map.mpr ⟨other, hmem, he⟩)
        · exact hfresh other hmem hold

theorem checkSources_perm {sources sources' : List DiscoveryEndpoint}
    (hp : sources.Perm sources') (h : checkSources rt [] sources = .ok ()) :
    checkSources rt [] sources' = .ok () := by
  rw [checkSources_eq_ok] at h ⊢
  obtain ⟨hacceptable, hnodup, _⟩ := h
  exact ⟨fun source hmem => hacceptable source (hp.mem_iff.mpr hmem),
    (hp.map _).nodup_iff.mp hnodup, fun _ _ => List.not_mem_nil⟩

theorem separates_sources {sources : List DiscoveryEndpoint}
    (h : checkSources rt [] sources = .ok ()) : Separates less sources :=
  separates_lessBy (injOn_id (checkSources_eq_ok.mp h).2.1)

theorem prepare_perm {sources sources' selected : List DiscoveryEndpoint}
    (hp : sources.Perm sources') (h : prepare rt client sources = .ok selected) :
    prepare rt client sources' = .ok selected := by
  obtain ⟨⟨hroot, hlimit, hattempt, hoverall⟩, hpos, hmost, hcheck, rfl⟩ := prepare_eq_ok.mp h
  have hlength := hp.length_eq
  have hsame : attemptLimit client sources' = attemptLimit client sources := by
    rw [attemptLimit, attemptLimit, hlength]
  apply prepare_eq_ok.mpr
  refine ⟨⟨hroot, hsame ▸ hlimit, hattempt, hoverall⟩, by omega, by omega,
    checkSources_perm hp hcheck, ?_⟩
  have hordered : rt.sort.run less sources = rt.sort.run less sources' :=
    rt.sort.run_eq_of_perm (strictWeak_lessBy _ _) (separates_sources hcheck) hp
  rw [select, select, hsame, hordered]

/-- The mirrors to ask are the first ones by priority and identifier. -/
theorem select_spec {sources : List DiscoveryEndpoint} (h : checkSources rt [] sources = .ok ())
    (hlimit : 1 ≤ attemptLimit client sources) :
    ∃ ordered : List DiscoveryEndpoint, ordered.Perm sources ∧
      ordered.Pairwise (fun a b =>
        a.priority < b.priority ∨ a.priority = b.priority ∧ a.id < b.id) ∧
      select rt client sources = ordered.take (attemptLimit client sources).toNat := by
  have hnodup := (checkSources_eq_ok.mp h).2.1
  refine ⟨rt.sort.run less sources, rt.sort.perm _ _, ?_, ?_⟩
  · refine (rt.sort.run_strict (strictWeak_lessBy _ _) (separates_sources h) hnodup.of_map).imp ?_
    intro a b hless
    unfold less lessBy at hless
    split_ifs at hless with heq
    · exact Or.inr ⟨UInt16.toNat_inj.mp heq, of_decide_eq_true hless⟩
    · exact Or.inl (UInt16.lt_iff_toNat_lt.mpr (of_decide_eq_true hless))
  · unfold select
    dsimp only
    split_ifs with hcut
    · rfl
    · rw [List.take_of_length_le]
      omega

/-! ## The mirrors of a manifest -/

theorem acceptable_of_validateSources {index : ℕ} {ids : List Bytes}
    {discovery : List DiscoveryEndpoint} (h : validateSources rt index ids discovery = .ok ()) :
    ∀ source ∈ discovery, Acceptable rt source := by
  induction discovery generalizing index ids with
  | nil => exact fun _ h => absurd h List.not_mem_nil
  | cons source rest ih =>
      have hrest := (validateSources_cons h).2
      rw [List.forall_mem_cons]
      refine ⟨?_, ih hrest⟩
      unfold validateSources at h
      cases hurl : rt.parseRequestURI source.url with
      | none =>
          simp only [hurl] at h
          split_ifs at h
      | some parsed =>
          simp only [hurl] at h
          split_ifs at h with hid _ hpriority hplain
          refine ⟨Bool.not_eq_false _ ▸ hid, hpriority, parsed, ?_⟩
          simp only [validateSource, hurl, if_neg hplain]

theorem length_discovery_of_ok {discovery : List DiscoveryEndpoint} {nodes : List Node}
    (h : validateCatalogContents rt discovery nodes = .ok ()) :
    1 ≤ discovery.length ∧ discovery.length ≤ 16 := by
  by_contra hbad
  have hcount : discovery.length = 0 ∨ 16 < discovery.length := by omega
  rw [validateCatalogContents, validateDiscovery, if_pos hcount] at h
  cases h

/-- `Fetch` accepts the mirrors of every document that verifies. -/
theorem checkSources_of_verify {envelope : Envelope} {rootKey : Bytes} {now : ℤ}
    {document : Document} {nextState : TrustedState}
    (h : verify rt envelope rootKey now trusted = (.ok document, nextState)) :
    (1 ≤ document.discovery.length ∧ document.discovery.length ≤ 16) ∧
      checkSources rt [] document.discovery = .ok () := by
  obtain ⟨o, ho, rfl, _⟩ := verify_ok (congrArg Prod.fst h)
  have hsources := (loops_of_ok ho.valid.contents).1
  refine ⟨length_discovery_of_ok ho.valid.contents, checkSources_eq_ok.mpr ?_⟩
  exact ⟨acceptable_of_validateSources hsources, nodup_sources hsources,
    fun _ _ => List.not_mem_nil⟩

/-! ## Fetch -/

theorem fetch_of_prepared {sources selected : List DiscoveryEndpoint}
    (h : prepare rt client sources = .ok selected) :
    fetch rt world client trusted ctx sources =
      attempts rt world client trusted ctx 0 0 [] selected := by
  rw [fetch, h]

theorem fetch_of_refused {sources : List DiscoveryEndpoint} {e : Error}
    (h : prepare rt client sources = .error e) :
    fetch rt world client trusted ctx sources = ([], .error (.refused e)) := by
  rw [fetch, h]

theorem fetch_search {sources selected : List DiscoveryEndpoint}
    (hprepare : prepare rt client sources = .ok selected)
    (hfits : (selected.length : ℤ) ≤ deadline client ctx)
    (htimely : Timely ctx (fetch rt world client trusted ctx sources).1) :
    Searches rt world client trusted 0 selected (fetch rt world client trusted ctx sources).1
      (fetch rt world client trusted ctx sources).2 := by
  have hattempt := (prepare_eq_ok.mp hprepare).1.attemptTimeout.1
  rw [fetch_of_prepared hprepare] at htimely ⊢
  unfold Duration.second at hattempt
  apply attempts_search one_pos (by omega) _ htimely
  rwa [mul_one, sub_zero]

theorem Searches.nodup {index : ℕ} {selected : List DiscoveryEndpoint} {turns : List Attempt}
    {result : Except Failure Result}
    (h : Searches rt world client trusted index selected turns result)
    (hnodup : selected.Nodup) : (turns.map Attempt.source).Nodup := by
  rcases h with ⟨failed, source, rest, _, _, rfl, _, _, hturns, _⟩ | ⟨_, hturns, _⟩
  · rw [hturns]
    refine hnodup.sublist ?_
    exact (List.append_sublist_append_left failed).mpr
      (List.singleton_sublist.mpr List.mem_cons_self)
  · rwa [hturns]

theorem fetch_perm {sources sources' : List DiscoveryEndpoint} (hp : sources'.Perm sources) :
    (fetch rt world client trusted ctx sources').1 = (fetch rt world client trusted ctx sources).1 ∧
      (fetch rt world client trusted ctx sources').2.toOption =
        (fetch rt world client trusted ctx sources).2.toOption := by
  cases h : prepare rt client sources with
  | ok selected =>
      rw [fetch_of_prepared h, fetch_of_prepared (prepare_perm hp.symm h)]
      exact ⟨rfl, rfl⟩
  | error e =>
      cases h' : prepare rt client sources' with
      | ok selected =>
          rw [prepare_perm hp h'] at h
          cases h
      | error e' =>
          rw [fetch_of_refused h, fetch_of_refused h']
          exact ⟨rfl, rfl⟩

/-- `Fetch` asks the first mirrors in their order, one at a time, until one of them verifies. The
order of the sources does not matter, and the mirrors of a manifest that verifies are never
refused. -/
theorem fetch_falls_back (rt : Runtime) (world : World) (client : Client) (trusted : TrustedState)
    (ctx : Context) (sources : List DiscoveryEndpoint) :
    (∀ selected, prepare rt client sources = .ok selected →
      (selected.length : ℤ) ≤ deadline client ctx →
      Timely ctx (fetch rt world client trusted ctx sources).1 →
      (∃ ordered : List DiscoveryEndpoint, ordered.Perm sources ∧
        ordered.Pairwise (fun a b =>
          a.priority < b.priority ∨ a.priority = b.priority ∧ a.id < b.id) ∧
        selected = ordered.take (attemptLimit client sources).toNat) ∧
      ((fetch rt world client trusted ctx sources).1.map Attempt.source).Nodup ∧
      (fetch rt world client trusted ctx sources).1.Pairwise
        (fun earlier later => earlier.finished ≤ later.started) ∧
      Searches rt world client trusted 0 selected (fetch rt world client trusted ctx sources).1
        (fetch rt world client trusted ctx sources).2) ∧
    (∀ e, prepare rt client sources = .error e →
      fetch rt world client trusted ctx sources = ([], .error (.refused e))) ∧
    (∀ sources' : List DiscoveryEndpoint, sources'.Perm sources →
      (fetch rt world client trusted ctx sources').1 =
        (fetch rt world client trusted ctx sources).1 ∧
      (fetch rt world client trusted ctx sources').2.toOption =
        (fetch rt world client trusted ctx sources).2.toOption ∧
      ∀ selected, prepare rt client sources = .ok selected →
        fetch rt world client trusted ctx sources' = fetch rt world client trusted ctx sources) ∧
    ∀ envelope rootKey now retained document nextState,
      verify rt envelope rootKey now retained = (.ok document, nextState) →
      checkSources rt [] document.discovery = .ok () ∧
      (Configured client document.discovery →
        ∃ selected, prepare rt client document.discovery = .ok selected) := by
  refine ⟨fun selected hprepare hfits htimely => ?_, fun e => fetch_of_refused,
    fun sources' hp => ?_, fun envelope rootKey now retained document nextState hverify => ?_⟩
  · obtain ⟨hconfigured, _, _, hcheck, hselect⟩ := prepare_eq_ok.mp hprepare
    obtain ⟨ordered, hperm, hsorted, htake⟩ := select_spec hcheck hconfigured.attempts.1
    have hsearch := fetch_search hprepare hfits htimely
    have hnodup : selected.Nodup := by
      rw [← hselect, htake]
      apply List.Nodup.sublist (List.take_sublist _ _)
      exact hperm.nodup_iff.mpr (checkSources_eq_ok.mp hcheck).2.1.of_map
    refine ⟨⟨ordered, hperm, hsorted, ?_⟩, hsearch.nodup hnodup, ?_, hsearch⟩
    · rw [← hselect, htake]
    · rw [fetch_of_prepared hprepare]
      exact (attempts_sequential rt world client trusted ctx selected 0 0 []).2
  · obtain ⟨hturns, hresult⟩ := fetch_perm hp
    refine ⟨hturns, hresult, fun selected hprepare => ?_⟩
    rw [fetch_of_prepared hprepare, fetch_of_prepared (prepare_perm hp.symm hprepare)]
  · obtain ⟨⟨hpos, hmost⟩, hcheck⟩ := checkSources_of_verify hverify
    exact ⟨hcheck, fun hconfigured =>
      ⟨_, prepare_eq_ok.mpr ⟨hconfigured, hpos, hmost, hcheck, rfl⟩⟩⟩

namespace Sample

def knowing : Runtime :=
  { Manifest.Sample.short with
    decodeEnvelope := fun s =>
      if s = [7] then .ok (Manifest.Sample.current, []) else .error (.library "invalid character") }

/-- The first mirror cannot be reached, the second one answers with something else, and the third
one serves the manifest. -/
def serving : World :=
  { unreachable 1 with
    exchange := fun source =>
      if source.id = str "c" then ⟨none, .error (.library "i/o timeout")⟩
      else ⟨none, .ok ⟨some ⟨str "https", false, str "mirror", [], []⟩, 200, str "application/json",
        ⟨if source.id = str "a" then [1] else [7], none⟩⟩⟩
    clock := fun _ => Manifest.Sample.today }

def found : List Attempt × Except Failure Result :=
  fetch knowing serving defaults .empty .background mirrors

end Sample

theorem fetch_falls_back_serving :
    Sample.found.1.map Attempt.source =
        [Sample.mirror "c" 1, Sample.mirror "a" 2, Sample.mirror "b" 2] ∧
      Searches Sample.knowing Sample.serving Sample.defaults .empty 0
        [Sample.mirror "c" 1, Sample.mirror "a" 2, Sample.mirror "b" 2] Sample.found.1
        Sample.found.2 ∧
      Sample.found.2.isOk = true ∧
      fetch Sample.knowing Sample.serving Sample.defaults .empty .background
        Sample.mirrors.reverse =
        Sample.found := by
  have hprepare : prepare Sample.knowing Sample.defaults Sample.mirrors =
      .ok [Sample.mirror "c" 1, Sample.mirror "a" 2, Sample.mirror "b" 2] := by decide
  have htimely : Timely .background Sample.found.1 :=
    ⟨by decide +kernel, fun _ _ _ hcancelled => by cases hcancelled⟩
  obtain ⟨hfetch, _, hperm, _⟩ := fetch_falls_back Sample.knowing Sample.serving Sample.defaults
    .empty .background Sample.mirrors
  refine ⟨by decide +kernel, (hfetch _ hprepare (by decide) htimely).2.2.2, by decide +kernel, ?_⟩
  exact (hperm _ Sample.mirrors.reverse_perm).2.2 _ hprepare

end CloudHelp.Discovery
