import QuantForge.Library.Admission
import QuantForge.Oms.Threads

/-! Between two resets of the deduplicator a trade id is admitted once, whatever the
threads do. The deduplicator and the history form an admission ledger, and every step
of a thread is one of its moves. -/
namespace QuantForge

open Library Library.Admission OrderManagementSystem

inductive FillStage where
  | credited
  | pushed
  | called
  deriving DecidableEq

namespace HistoryEntry

variable {poolSize : Nat}

def attemptOf : HistoryEntry poolSize → Option (Nat × Str × Bool)
  | .tried epoch tradeId isNew => some (epoch, tradeId, isNew)
  | _ => none

def stageOf : HistoryEntry poolSize → Option (FillStage × Nat × Str)
  | .credited epoch tradeId _ _ _ _ => some (.credited, epoch, tradeId)
  | .pushed epoch tradeId => some (.pushed, epoch, tradeId)
  | .called epoch tradeId => some (.called, epoch, tradeId)
  | _ => none

end HistoryEntry

namespace SharedOms

variable {poolSize : Nat} (s : SharedOms poolSize)

def attempts : List (Nat × Str × Bool) := s.history.filterMap HistoryEntry.attemptOf

def stages : List (FillStage × Nat × Str) := s.history.filterMap HistoryEntry.stageOf

/-- Fills without a trade id are not deduplicated, so they stay out of the ledger. -/
def ledger : Ledger FillStage Str where
  processed := s.oms.dedup.processed
  epoch := s.epoch
  tried := s.attempts
  done := s.stages.filter fun item => item.2.2 ≠ []

theorem ledger_put {oms : OrderManagementSystem poolSize} (h : oms.dedup = s.oms.dedup) :
    (s.put oms).ledger = s.ledger := by
  unfold ledger
  rw [show (s.put oms).oms.dedup = s.oms.dedup from h]
  rfl

@[simp] theorem ledger_noteRelease (slot : Option (Fin poolSize)) :
    (s.noteRelease slot).ledger = s.ledger := by
  cases slot with
  | none => rfl
  | some po => rfl

end SharedOms

namespace Phase

variable {poolSize : Nat}

def owedStages (d : Delivery) (epoch : Nat) (stages : List FillStage) :
    List (FillStage × Nat × Str) :=
  if d.report.tradeId = [] then [] else stages.map fun stage => (stage, epoch, d.report.tradeId)

/-- The stages that the thread still has to do for the fill that it admitted. -/
def owes : Phase poolSize → List (FillStage × Nat × Str)
  | .looking d epoch => owedStages d epoch [.credited, .pushed, .called]
  | .building d epoch _ _ _ => owedStages d epoch [.credited, .pushed, .called]
  | .updating d epoch _ _ _ _ => owedStages d epoch [.credited, .pushed, .called]
  | .pushing d epoch _ => owedStages d epoch [.pushed, .called]
  | .notifying d epoch _ => owedStages d epoch [.called]
  | _ => []

theorem owes_enterFill (epoch : Nat) (d : Delivery) :
    (enterFill epoch d : Phase poolSize).owes = [] := by
  unfold enterFill
  split
  · rename_i hempty
    exact if_pos hempty
  · rfl

theorem owes_start (epoch : Nat) (c : OmsCall) : (start epoch c : Phase poolSize).owes = [] := by
  cases c with
  | onFill report nowNs => exact owes_enterFill epoch _
  | _ => rfl

variable {s s' : SharedOms poolSize} {owed owed' : List (FillStage × Nat × Str)}

private theorem move_keep (h : s'.ledger = s.ledger) (hsub : owed' ⊆ owed) :
    Move s.ledger owed owed' s'.ledger :=
  h ▸ .keep hsub

private theorem move_stage (d : Delivery) (epoch : Nat) (stage : FillStage)
    (rest : List FillStage) (hnew : stage ∉ rest) (entry : HistoryEntry poolSize)
    (hattempt : entry.attemptOf = none)
    (hstage : entry.stageOf = some (stage, epoch, d.report.tradeId))
    (h : s'.ledger = s.ledger) :
    Move s.ledger (owedStages d epoch (stage :: rest)) (owedStages d epoch rest)
      (s'.note entry).ledger := by
  have hprocessed : (s'.note entry).oms.dedup.processed = s.oms.dedup.processed :=
    congrArg Ledger.processed h
  have hepoch : (s'.note entry).epoch = s.epoch := congrArg Ledger.epoch h
  have htried : (s'.note entry).attempts = s.attempts := by
    rw [SharedOms.attempts, SharedOms.note, List.filterMap_cons_none hattempt]
    exact congrArg Ledger.tried h
  have hdone : (s'.note entry).ledger.done =
      ((stage, epoch, d.report.tradeId) :: s'.stages).filter fun item => item.2.2 ≠ [] := by
    rw [SharedOms.ledger, SharedOms.stages, SharedOms.note, List.filterMap_cons_some hstage]
    rfl
  have hrest : (s'.stages.filter fun item => item.2.2 ≠ []) = s.ledger.done :=
    congrArg Ledger.done h
  by_cases hempty : d.report.tradeId = []
  · rw [List.filter_cons_of_neg (by simp [hempty]), hrest] at hdone
    have hledger : (s'.note entry).ledger = s.ledger := by
      rw [SharedOms.ledger, hprocessed, hepoch, htried]
      exact congrArg (Ledger.mk _ _ _) hdone
    exact move_keep hledger (by simp [owedStages, hempty])
  · rw [List.filter_cons_of_pos (by simpa using hempty), hrest] at hdone
    have hledger : (s'.note entry).ledger =
        { s.ledger with done := (stage, epoch, d.report.tradeId) :: s.ledger.done } := by
      rw [SharedOms.ledger, hprocessed, hepoch, htried]
      exact congrArg (Ledger.mk _ _ _) hdone
    rw [hledger]
    refine .perform _ (by simp [owedStages, hempty]) ?_
    simpa [owedStages, hempty] using hnew

theorem move_act (s : SharedOms poolSize) (phase : Phase poolSize) :
    Move s.ledger phase.owes (phase.act s).2.owes (phase.act s).1.ledger := by
  cases phase with
  | idle => exact .keep (List.Subset.refl _)
  | acquiring sub =>
      rw [act]
      split
      · exact .keep (List.Subset.refl _)
      · exact move_keep (s.ledger_put rfl) (List.nil_subset _)
  | populating sub po => exact move_keep (s.ledger_put rfl) (List.nil_subset _)
  | storing sub oid po => exact move_keep (s.ledger_put rfl) (List.nil_subset _)
  | placing sub oid =>
      rw [act]
      split
      · refine move_keep (s.ledger_put (dedup_onOrderAck s.oms _ _)) ?_
        rw [owes_enterFill]
        exact List.nil_subset _
      · exact move_keep (s.ledger_put rfl) (List.nil_subset _)
  | checking d =>
      by_cases hseen : d.report.tradeId ∈ s.oms.dedup.processed
      · simp only [act, FillDeduplicator.checkSeen, if_pos hseen]
        exact .refuse _ hseen rfl
      · simp only [act, FillDeduplicator.checkSeen, if_neg hseen]
        exact .keep (List.nil_subset _)
  | marking d =>
      by_cases hseen : d.report.tradeId ∈ s.oms.dedup.processed
      · simp only [act, FillDeduplicator.insertNew, if_pos hseen]
        exact .refuse _ hseen rfl
      · simp only [act, FillDeduplicator.insertNew, if_neg hseen]
        refine .accept _ hseen fun item hin => ?_
        rw [owes, owedStages] at hin
        split at hin
        · simp at hin
        · obtain ⟨stage, -, rfl⟩ := List.mem_map.mp hin
          rfl
  | looking d epoch =>
      rw [act]
      split
      · exact .keep (List.nil_subset _)
      · exact .keep (List.Subset.refl _)
  | building d epoch oid po named => exact .keep (List.Subset.refl _)
  | updating d epoch oid po named fill =>
      exact move_stage d epoch .credited [.pushed, .called] (by decide) _ rfl rfl
        (s.ledger_put (dedup_applyFill s.oms _ _ _ _))
  | pushing d epoch fill =>
      exact move_stage d epoch .pushed [.called] (by decide) _ rfl rfl
        (s.ledger_put (dedup_pushFill s.oms fill))
  | notifying d epoch fill =>
      have hmove := move_stage d epoch .called [] (by decide) (.called epoch d.report.tradeId)
        rfl rfl (s.ledger_put (dedup_record s.oms (.fillCallback fill)))
      rwa [show owedStages d epoch [] = [] by simp [owedStages]] at hmove
  | acking exchangeOid oid =>
      exact move_keep (s.ledger_put (dedup_onOrderAck s.oms _ _)) (List.nil_subset _)
  | rejecting exchangeOid reason =>
      exact move_keep (s.ledger_put (dedup_onReject s.oms _ _)) (List.nil_subset _)
  | failing oid reason =>
      exact move_keep (s.ledger_put (dedup_onReject s.oms _ _)) (List.nil_subset _)
  | dropping oid =>
      exact move_keep (s.ledger_put (dedup_dropOrder s.oms _)) (List.nil_subset _)
  | resetting => exact .reset rfl
  | collecting => exact .keep (List.Subset.refl _)
  | cancelling oids =>
      cases oids with
      | nil => exact .keep (List.Subset.refl _)
      | cons oid oids =>
          exact move_keep (s.ledger_put (dedup_cancel s.oms oid)) (List.Subset.refl _)

theorem move_next (s : SharedOms poolSize) (phase : Phase poolSize) (input : ThreadInput) :
    Move s.ledger phase.owes (phase.next s input).2.owes (phase.next s input).1.ledger := by
  cases input with
  | resume =>
      have hmove := move_act (s.noteRelease (phase.releases s.oms)) phase
      rwa [s.ledger_noteRelease] at hmove
  | call c =>
      cases phase with
      | idle =>
          refine .keep ?_
          change (start s.epoch c : Phase poolSize).owes ⊆ _
          rw [owes_start]
          exact List.nil_subset _
      | _ => exact .keep (List.Subset.refl _)

theorem preserved_ledger :
    Interleaving.Preserved (@next poolSize) (fun _ _ _ _ => True)
      (fun s => s.ledger.Sound) (fun s phase => s.ledger.Covers phase.owes)
      (fun phase other => phase.owes.Disjoint other.owes) where
  symm := fun _ _ h => h.symm
  shared := fun s phase input h howed => sound_move (move_next s phase input) h howed
  own := fun s phase input h howed => covers_move (move_next s phase input) h howed
  bystander := fun s phase input _ h _ hother hdisjoint _ =>
    bystander_move (move_next s phase input) h hother hdisjoint

end Phase

namespace OmsThreads

variable {Thread : Type*} [DecidableEq Thread] {poolSize : Nat}

theorem sound_ledger (paperMode : Bool) (events : List (Thread × ThreadInput)) :
    (Run.run step (init Thread poolSize paperMode) events).shared.ledger.Sound := by
  have hstart : Interleaving.Consistent (fun s => s.ledger.Sound)
      (fun s phase => s.ledger.Covers phase.owes)
      (fun phase other => phase.owes.Disjoint other.owes)
      (init Thread poolSize paperMode) := by
    refine ⟨?_, fun _ => ?_, fun _ _ _ => ?_⟩
    · constructor <;> simp [init, SharedOms.ledger, SharedOms.attempts, SharedOms.stages,
        OrderManagementSystem.init]
    · simp [init, Phase.owes, Ledger.Covers]
    · simp [init, Phase.owes]
  have hguard : Run.Along (Interleaving.step Phase.next) (Interleaving.Guarded fun _ _ _ _ => True)
      (init Thread poolSize paperMode) events :=
    Run.along_of_forall _ (fun _ => True) (fun _ _ _ _ _ => trivial) _ fun _ _ => trivial
  have halways := Interleaving.always_consistent Phase.preserved_ledger hstart hguard
  exact halways.last.shared

/-- Between two resets a trade id that is presented is admitted exactly once, and what
`on_fill` does for it, it does at most once. -/
theorem fill_admitted_exactly_once (paperMode : Bool) (events : List (Thread × ThreadInput))
    (epoch : Nat) (tradeId : Str) (hne : tradeId ≠ []) :
    let s := (Run.run step (init Thread poolSize paperMode) events).shared
    s.attempts.count (epoch, tradeId, true) ≤ 1 ∧
    (∀ isNew, (epoch, tradeId, isNew) ∈ s.attempts →
      s.attempts.count (epoch, tradeId, true) = 1) ∧
    ∀ stage, s.stages.count (stage, epoch, tradeId) ≤
      s.attempts.count (epoch, tradeId, true) := by
  intro s
  have h : s.ledger.Sound := sound_ledger paperMode events
  refine ⟨h.admitted_once epoch tradeId, fun isNew hin => h.count_eq_one hin, fun stage => ?_⟩
  have hcount : s.ledger.done.count (stage, epoch, tradeId) =
      s.stages.count (stage, epoch, tradeId) :=
    List.count_filter (by simpa using hne)
  rw [← hcount]
  by_cases hdone : (stage, epoch, tradeId) ∈ s.ledger.done
  · have hadmitted : s.attempts.count (epoch, tradeId, true) = 1 :=
      h.count_eq_one (h.rooted _ _ _ hdone)
    rw [hadmitted]
    exact h.done_once _
  · rw [List.count_eq_zero.mpr hdone]
    exact Nat.zero_le _

theorem fill_admitted_once_by_two_threads :
    let report := { exchangeOid := ['E'], price := 100, quantity := 4, tradeId := ['T'] }
    let s := (Run.run step (init Bool 1 false) [(true, .call (.onFill report 0)),
      (false, .call (.onFill report 0)), (true, .resume), (false, .resume), (true, .resume),
      (false, .resume)]).shared
    s.attempts.count (0, ['T'], true) = 1 :=
  (fill_admitted_exactly_once _ _ _ _ (by decide)).2.1 false (by decide +kernel)

end OmsThreads

end QuantForge
