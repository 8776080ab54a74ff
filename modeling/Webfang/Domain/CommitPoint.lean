import Webfang.Domain.Record
import Webfang.Lib.Execution
import Webfang.Lib.ValueCount

/-!
# The commit point

`domain/record_transition.rs`: `swap_to_committed` called again and again on one record map, by
workers that take turns under a mutex.  The order they take turns in is a list of keys.
-/

namespace Webfang

/-- `record_transition::derived_total_exported`. -/
def derivedTotalExported (records : DomainRecords) : Nat :=
  ValueCount.countValues (fun record => record.status = .committed) records

/-- The calls of `swap_to_committed` in the order the mutex lets them in: what each answers, and
the map behind the last. -/
def swapAll (records : DomainRecords) : List String → List (String × Bool) × DomainRecords
  | [] => ([], records)
  | key :: keys =>
      let (records, committed) := swapToCommitted records key
      let (answers, last) := swapAll records keys
      ((key, committed) :: answers, last)

/-! ## The two validity tables -/

theorem RawRecord.validate_eq_ok_iff {record : RawRecord} {target : PageStatus} :
    record.validate target = .ok () ↔
      record.status = target ∧
      (target.claimsOutput = true → record.isMigratedV1 = false →
        record.outputLocation.isSome ∧ record.contentHash.isSome) ∧
      (target = .committed → record.lastError = none ∧ 1 ≤ record.attempts) := by
  unfold RawRecord.validate
  by_cases same : record.status = target
  · rw [if_neg (not_not.mpr same)]
    constructor
    · intro passed
      split at passed
      · cases passed
      · rename_i located
        split at passed
        · cases passed
        · rename_i hashed
          split at passed
          · cases passed
          · rename_i noError
            split at passed
            · cases passed
            · rename_i attempted
              refine ⟨same, fun claims fresh => ?_, fun committed => ?_⟩
              · simp only [claims, fresh, Bool.not_false, Bool.true_and, Bool.not_eq_true,
                  Option.isNone_eq_false_iff] at located hashed
                exact ⟨located, hashed⟩
              · simp only [committed, decide_true, Bool.true_and, Option.isSome_iff_ne_none,
                  not_not, decide_eq_true_eq, UInt32.not_lt] at noError attempted
                exact ⟨noError, attempted⟩
    · rintro ⟨-, output, committed⟩
      rw [if_neg, if_neg, if_neg, if_neg]
      · intro small
        simp only [Bool.and_eq_true, decide_eq_true_eq] at small
        exact absurd small.2 (UInt32.not_lt.mpr (committed small.1).2)
      · intro failed
        simp only [Bool.and_eq_true, decide_eq_true_eq] at failed
        rw [(committed failed.1).1] at failed
        cases failed.2
      · intro missing
        simp only [Bool.and_eq_true, Bool.not_eq_true', Option.isNone_iff_eq_none] at missing
        have hash := (output missing.1.1 missing.1.2).2
        rw [missing.2] at hash
        cases hash
      · intro missing
        simp only [Bool.and_eq_true, Bool.not_eq_true', Option.isNone_iff_eq_none] at missing
        have location := (output missing.1.1 missing.1.2).1
        rw [missing.2] at location
        cases location
  · rw [if_pos same]
    exact ⟨fun passed => (nomatch passed), fun passed => absurd passed.1 same⟩

/-- A record is valid where its URL is meaningful and it reconciles at its own status. -/
theorem RawRecord.valid_iff_validate {record : RawRecord} :
    record.Valid ↔ isBlank record.url = false ∧ record.validate record.status = .ok () := by
  rw [RawRecord.valid_iff, RawRecord.validate_eq_ok_iff]
  exact and_congr_right fun _ => (and_iff_right rfl).symm

/-- The commit point accepts exactly the EXPORTED records whose COMMITTED successor is
valid, and changes nothing but the status. -/
theorem tryCommitExported_eq_some {current committed : RawRecord} :
    tryCommitExported current = some committed ↔
      current.status = .exported ∧ committed = { current with status := .committed } ∧
        committed.Valid := by
  constructor
  · intro accepted
    unfold tryCommitExported at accepted
    split at accepted
    · cases accepted
    · rename_i guard
      simp only [Bool.or_eq_true, decide_eq_true_eq, not_or, not_not] at guard
      split at accepted
      · cases accepted
      · rename_i exported rebuilt
        have same := (Stateful.record_of_reconcile rebuilt).1
        dsimp only at accepted
        split at accepted
        · rename_i valid
          cases accepted
          refine ⟨guard.2, ?_, Option.isNone_iff_eq_none.mp valid⟩
          simp only [Stateful.commit, Stateful.advance, same]
        · cases accepted
  · rintro ⟨exported, rfl, valid⟩
    have facts := RawRecord.valid_iff.mp valid
    have table : current.validate .exported = .ok () := by
      rw [RawRecord.validate_eq_ok_iff]
      refine ⟨exported, fun _ fresh => facts.2.1 rfl fresh, fun other => ?_⟩
      cases other
    unfold tryCommitExported
    rw [if_neg (by simp [facts.1, exported]), Stateful.reconcile_of_validate table]
    exact if_pos (Option.isNone_iff_eq_none.mpr valid)

/-- The records the commit point accepts, by the tables and the two fields only COMMITTED needs. -/
theorem tryCommitExported_isSome_iff {current : RawRecord} :
    (tryCommitExported current).isSome ↔
      current.status = .exported ∧ isBlank current.url = false ∧
      (∃ exported, Stateful.reconcile .exported current = .ok exported) ∧
      current.lastError = none ∧ 1 ≤ current.attempts := by
  simp only [Option.isSome_iff_exists, tryCommitExported_eq_some]
  constructor
  · rintro ⟨-, exported, rfl, valid⟩
    have facts := RawRecord.valid_iff.mp valid
    refine ⟨exported, facts.1, ⟨_, Stateful.reconcile_of_validate ?_⟩, facts.2.2 rfl⟩
    rw [RawRecord.validate_eq_ok_iff]
    exact ⟨exported, fun _ fresh => facts.2.1 rfl fresh, fun other => nomatch other⟩
  · rintro ⟨exported, meaningful, ⟨x, rebuilt⟩, ready⟩
    have table := RawRecord.validate_eq_ok_iff.mp (Stateful.record_of_reconcile rebuilt).2
    refine ⟨_, exported, rfl, ?_⟩
    rw [RawRecord.valid_iff]
    exact ⟨meaningful, fun _ fresh => table.2.1 rfl fresh, fun _ => ready⟩

/-! ## One call -/

/-- What a call of `swap_to_committed` on `key` does to the map it finds. -/
structure SwapCall (before : DomainRecords) (key : String) : Prop where
  committed_iff : (swapToCommitted before key).2 = true ↔
    ∃ record, before[key]? = some record ∧
      record.status = .exported ∧ isBlank record.url = false ∧
      (∃ exported, Stateful.reconcile .exported record = .ok exported) ∧
      record.lastError = none ∧ 1 ≤ record.attempts
  slot_committed : (swapToCommitted before key).2 = true →
    ∃ record, before[key]? = some record ∧ record.status = .exported ∧
      ∀ k : String, (swapToCommitted before key).1[k]? =
        if key = k then some { record with status := .committed } else before[k]?
  refused : (swapToCommitted before key).2 = false → (swapToCommitted before key).1 = before
  valid_kept : ∀ (k : String) (record : RawRecord), before[k]? = some record → record.Valid →
    ∃ kept : RawRecord, (swapToCommitted before key).1[k]? = some kept ∧ kept.Valid

/-- The two outcomes of a call. -/
theorem swapToCommitted_cases (before : DomainRecords) (key : String) :
    (swapToCommitted before key = (before, false) ∧
        ∀ record, before[key]? = some record → (tryCommitExported record).isSome = false) ∨
      ∃ record, before[key]? = some record ∧ (tryCommitExported record).isSome ∧
        record.status = .exported ∧ RawRecord.Valid { record with status := .committed } ∧
        swapToCommitted before key =
          (before.insert key { record with status := .committed }, true) := by
  unfold swapToCommitted
  cases found : before[key]? with
  | none => exact .inl ⟨rfl, fun record there => nomatch there⟩
  | some record =>
      rw [Option.bind_some]
      cases accepted : tryCommitExported record with
      | none =>
          refine .inl ⟨rfl, fun record' there => ?_⟩
          cases there
          rw [accepted]
          rfl
      | some committed =>
          obtain ⟨exported, rfl, valid⟩ := tryCommitExported_eq_some.mp accepted
          exact .inr ⟨record, rfl, by rw [accepted]; rfl, exported, valid, rfl⟩

theorem swapCall (before : DomainRecords) (key : String) : SwapCall before key := by
  rcases swapToCommitted_cases before key with
    ⟨outcome, refused⟩ | ⟨record, found, accepted, exported, valid, outcome⟩
  · constructor
    · rw [outcome]
      refine ⟨fun impossible => (nomatch impossible), fun ⟨record, found, facts⟩ => ?_⟩
      rw [← tryCommitExported_isSome_iff, refused record found] at facts
      cases facts
    · rw [outcome]
      exact fun impossible => nomatch impossible
    · rw [outcome]
      exact fun _ => rfl
    · intro k kept there valid
      rw [outcome]
      exact ⟨kept, there, valid⟩
  · constructor
    · rw [outcome]
      exact ⟨fun _ => ⟨record, found, tryCommitExported_isSome_iff.mp accepted⟩, fun _ => rfl⟩
    · intro _
      refine ⟨record, found, exported, fun k => ?_⟩
      rw [outcome]
      exact KeyedMerge.getElem?_insert_of_eq
    · rw [outcome]
      exact fun impossible => nomatch impossible
    · intro k kept there keptValid
      rw [outcome]
      dsimp only
      rw [KeyedMerge.getElem?_insert_of_eq]
      by_cases here : key = k
      · rw [if_pos here]
        exact ⟨_, rfl, valid⟩
      · rw [if_neg here]
        exact ⟨kept, there, keptValid⟩

/-- A call adds itself to the total. -/
theorem derivedTotalExported_swap (before : DomainRecords) (key : String) :
    derivedTotalExported (swapToCommitted before key).1 =
      derivedTotalExported before + if (swapToCommitted before key).2 then 1 else 0 := by
  rcases swapToCommitted_cases before key with
    ⟨outcome, -⟩ | ⟨record, found, -, exported, -, outcome⟩
  · rw [outcome]
    rfl
  · rw [outcome]
    unfold derivedTotalExported
    rw [ValueCount.countValues_insert, ValueCount.countValues_of_getElem? found, exported]
    simp

/-! ## A run of calls -/

theorem swapAll_cons (records : DomainRecords) (key : String) (keys : List String) :
    swapAll records (key :: keys) =
      ((key, (swapToCommitted records key).2) ::
          (swapAll (swapToCommitted records key).1 keys).1,
        (swapAll (swapToCommitted records key).1 keys).2) := rfl

/-- A slot that is not EXPORTED answers no call, and stays so. -/
theorem count_swapAll_of_status {key : String} (keys : List String) {records : DomainRecords}
    (closed : ∀ record, records[key]? = some record → record.status ≠ .exported) :
    (swapAll records keys).1.count (key, true) = 0 := by
  induction keys generalizing records with
  | nil => rfl
  | cons first keys ih =>
      rw [swapAll_cons, List.count_cons]
      rcases swapToCommitted_cases records first with
        ⟨outcome, -⟩ | ⟨record, found, -, exported, -, outcome⟩
      · rw [outcome, ih closed]
        simp
      · rw [outcome, ih, if_neg]
        · intro same
          simp only [beq_iff_eq, Prod.mk.injEq, and_true] at same
          exact closed record (same ▸ found) exported
        · intro record' there
          dsimp only at there
          rw [KeyedMerge.getElem?_insert_of_eq] at there
          split at there
          · cases there
            exact fun other => nomatch other
          · exact closed record' there

/-- Each key is committed at most once. -/
theorem count_swapAll_le_one (records : DomainRecords) (keys : List String) (key : String) :
    (swapAll records keys).1.count (key, true) ≤ 1 := by
  induction keys generalizing records with
  | nil => exact Nat.zero_le 1
  | cons first keys ih =>
      rw [swapAll_cons, List.count_cons]
      rcases swapToCommitted_cases records first with
        ⟨outcome, -⟩ | ⟨record, found, -, exported, -, outcome⟩
      · rw [outcome]
        simpa using ih records
      · rw [outcome]
        by_cases same : first = key
        · subst same
          have later : ∀ record', (records.insert first { record with status := .committed })[first]?
              = some record' → record'.status ≠ .exported := by
            intro record' there
            rw [Std.ExtTreeMap.getElem?_insert_self] at there
            cases there
            exact fun other => nomatch other
          rw [count_swapAll_of_status keys later]
          simp
        · rw [if_neg (by simpa using same)]
          exact ih _

theorem derivedTotalExported_swapAll (records : DomainRecords) (keys : List String) :
    derivedTotalExported (swapAll records keys).2 =
      derivedTotalExported records + (swapAll records keys).1.countP (·.2) := by
  induction keys generalizing records with
  | nil => rfl
  | cons key keys ih =>
      rw [swapAll_cons, List.countP_cons, ih, derivedTotalExported_swap]
      dsimp only
      omega

theorem valid_kept_swapAll {records : DomainRecords} {k : String} {record : RawRecord}
    (there : records[k]? = some record) (valid : record.Valid) (keys : List String) :
    ∃ kept : RawRecord, (swapAll records keys).2[k]? = some kept ∧ kept.Valid := by
  induction keys generalizing records record with
  | nil => exact ⟨record, there, valid⟩
  | cons key keys ih =>
      obtain ⟨kept, found, keptValid⟩ := (swapCall records key).valid_kept k record there valid
      exact ih found keptValid

/-- Whatever the calls and their order, each key is committed at most once, each commit moves its
one slot from EXPORTED to COMMITTED, the total counts the commits, and valid records stay. -/
theorem commit_point_exactly_once (records : DomainRecords) (keys : List String) :
    (∀ key, (swapAll records keys).1.count (key, true) ≤ 1) ∧
      StepSystem.Along (fun before key => some (swapToCommitted before key).1) SwapCall
        records keys ∧
      derivedTotalExported (swapAll records keys).2 =
        derivedTotalExported records + (swapAll records keys).1.countP (·.2) ∧
      ∀ (k : String) (record : RawRecord), records[k]? = some record → record.Valid →
        ∃ kept : RawRecord, (swapAll records keys).2[k]? = some kept ∧ kept.Valid :=
  ⟨count_swapAll_le_one records keys,
    StepSystem.Along.of_forall (fun key _ before => swapCall before key) records,
    derivedTotalExported_swapAll records keys,
    fun _ _ there valid => valid_kept_swapAll there valid keys⟩

end Webfang
