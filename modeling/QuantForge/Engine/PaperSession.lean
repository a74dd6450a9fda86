import QuantForge.Engine.FillPath
import QuantForge.Oms.PaperMode

/-! A session in paper mode from the orders to the portfolio, the fill loop taking its turns at any
time. When the fill queue has run empty the positions and the capital are what the orders say. -/
namespace QuantForge

open Library OrderManagementSystem

def EngineEvent.omsCall : EngineEvent → Option OmsCall
  | .call c => some c
  | .fillLoop => none

namespace PortfolioEngine

theorem processFills_quantity (engine : PortfolioEngine) (fills : List Fill) (token : Nat) :
    ((engine.processFills fills).getPosition token).quantity =
      (engine.getPosition token).quantity + (fills.map fun fill => fill.qtyFor token).sum := by
  induction fills generalizing engine with
  | nil => exact (add_zero _).symm
  | cons fill fills ih =>
      rw [processFills, Run.run_cons, ih, processFill_quantity, List.map_cons, List.sum_cons,
        ← add_assoc]
      rfl

end PortfolioEngine

namespace Engine

variable {poolSize : Nat}

/-- The trade ids from outside are foreign, and an order finds room in the fill queue. -/
def PaperStep (e : Engine poolSize) : EngineEvent → Prop
  | .call c => c.Foreign ∧ (c.submits = true → ¬e.oms.fillQueue.Full)
  | .fillLoop => True

instance (e : Engine poolSize) : DecidablePred e.PaperStep
  | .call _ => inferInstanceAs (Decidable (_ ∧ (_ → ¬_)))
  | .fillLoop => isTrue trivial

def sessionFills (seq : Nat) (events : List EngineEvent) : List Fill :=
  paperFills seq (events.filterMap EngineEvent.omsCall)

/-- What a part of a session does that executes `fills`: they are reported in this order, and the
fills that leave the queue are processed in the order in which they entered it. -/
structure Settles (fills : List Fill) (before after : Engine poolSize) : Prop where
  atRest : after.oms.AtRest
  executed : after.oms.executed = before.oms.executed ++ fills
  processed : ∃ processed,
    before.oms.fillQueue.contents ++ fills = processed ++ after.oms.fillQueue.contents ∧
      after.portfolio = before.portfolio.processFills processed

theorem Settles.refl {e : Engine poolSize} (h : e.oms.AtRest) : Settles [] e e where
  atRest := h
  executed := (List.append_nil _).symm
  processed := ⟨[], List.append_nil _, rfl⟩

theorem Settles.trans {first second : List Fill} {a b c : Engine poolSize}
    (hab : Settles first a b) (hbc : Settles second b c) : Settles (first ++ second) a c where
  atRest := hbc.atRest
  executed := by rw [hbc.executed, hab.executed, List.append_assoc]
  processed := by
    obtain ⟨early, hearly, hb⟩ := hab.processed
    obtain ⟨late, hlate, hc⟩ := hbc.processed
    refine ⟨early ++ late, ?_, ?_⟩
    · rw [← List.append_assoc, hearly, List.append_assoc, hlate, List.append_assoc]
    · rw [hc, hb]
      exact (Run.run_append _ _ _ _).symm

theorem settles_fillLoop {e : Engine poolSize} (h : e.oms.AtRest) : Settles [] e e.fillLoop := by
  cases hcontents : e.oms.fillQueue.contents with
  | nil =>
      rw [fillLoop_of_nil hcontents]
      exact Settles.refl h
  | cons fill rest =>
      obtain ⟨fillQueue, hrest, hloop⟩ := fillLoop_of_cons hcontents
      rw [hloop]
      refine ⟨h.of_book rfl rfl rfl fun _ _ hmem => hmem, (List.append_nil _).symm,
        [fill], ?_, rfl⟩
      change _ = [fill] ++ fillQueue.contents
      rw [hcontents, hrest, List.append_nil]
      rfl

theorem settles_idle {e : Engine poolSize} {c : OmsCall} (h : e.oms.Idles (e.oms.step c)) :
    Settles [] e (e.step (.call c)) where
  atRest := h.atRest
  executed := h.executed.trans (List.append_nil _).symm
  processed := ⟨[], by
    change _ = [] ++ (e.oms.step c).fillQueue.contents
    rw [h.fillQueue, List.append_nil, List.nil_append], rfl⟩

theorem settles_submit {n : Nat} {e : Engine (n + 1)} (h : e.oms.AtRest) (req : OrderRequest)
    (tsMs placedNs fillNs : Nat) (hroom : ¬e.oms.fillQueue.Full) :
    Settles [paperFill e.oms.seq req tsMs fillNs] e
        (e.step (.call (.submit req tsMs placedNs fillNs))) ∧
      (e.oms.step (.submit req tsMs placedNs fillNs)).seq = e.oms.seq + 1 := by
  obtain ⟨po, rest, hfree⟩ := freeList_of_atRest h
  have hstep : e.oms.step (.submit req tsMs placedNs fillNs) =
      e.oms.paperFilled po rest req tsMs placedNs fillNs :=
    congrArg Prod.snd (submit_paper req tsMs placedNs fillNs h hfree)
  have hseq : (e.oms.paperFilled po rest req tsMs placedNs fillNs).seq = e.oms.seq + 1 :=
    congrArg OrderBook.seq (book_paperFilled req tsMs placedNs fillNs)
  refine ⟨⟨?_, ?_, [], ?_, rfl⟩, hstep ▸ hseq⟩
  · change (e.oms.step (.submit req tsMs placedNs fillNs)).AtRest
    rw [hstep]
    exact atRest_paperFilled req tsMs placedNs fillNs h hfree
  · change (e.oms.step (.submit req tsMs placedNs fillNs)).executed = _
    rw [hstep, executed_paperFilled]
  · change _ = [] ++ (e.oms.step (.submit req tsMs placedNs fillNs)).fillQueue.contents
    rw [hstep, fillQueue_paperFilled, SpscQueue.push_contents hroom, List.nil_append]

theorem settles_run {n : Nat} {e : Engine (n + 1)} (h : e.oms.AtRest)
    {events : List EngineEvent} (hrun : Run.Along step PaperStep e events) :
    Settles (sessionFills e.oms.seq events) e (Run.run step e events) := by
  induction events generalizing e with
  | nil => exact Settles.refl h
  | cons event events ih =>
      obtain ⟨hevent, hrest⟩ := hrun
      cases event with
      | fillLoop =>
          have hfirst := settles_fillLoop h
          have hseq : e.fillLoop.oms.seq = e.oms.seq := by
            unfold fillLoop
            split <;> rfl
          have hsecond := ih hfirst.atRest hrest
          rw [hseq] at hsecond
          exact hfirst.trans hsecond
      | call c =>
          obtain ⟨hforeign, hroom⟩ := hevent
          cases hsubmits : c.submits with
          | false =>
              have hidles := idles_step h hsubmits hforeign
              have hfirst := settles_idle (e := e) hidles
              have hsecond := ih hfirst.atRest hrest
              have hfills : sessionFills e.oms.seq (.call c :: events) =
                  sessionFills e.oms.seq events := by
                cases c with
                | submit => cases hsubmits
                | _ => rfl
              rw [show (e.step (.call c)).oms.seq = e.oms.seq from hidles.seq] at hsecond
              rw [hfills]
              exact hfirst.trans hsecond
          | true =>
              cases c with
              | submit req tsMs placedNs fillNs =>
                  obtain ⟨hfirst, hseq⟩ :=
                    settles_submit h req tsMs placedNs fillNs (hroom hsubmits)
                  have hsecond := ih hfirst.atRest hrest
                  rw [show (e.step (.call (.submit req tsMs placedNs fillNs))).oms.seq =
                    e.oms.seq + 1 from hseq] at hsecond
                  exact hfirst.trans hsecond
              | _ => cases hsubmits

def start (poolSize : Nat) : Engine poolSize where
  oms := OrderManagementSystem.init poolSize true
  portfolio := PortfolioEngine.init

/-- However orders and turns of the fill loop interleave, every order is filled and processed once,
in its turn: the positions and the capital are those that the orders say, less the fills that still
wait in the queue. -/
theorem paper_session_settles {n : Nat} {events : List EngineEvent}
    (hrun : Run.Along step PaperStep (start (n + 1)) events) :
    let e := Run.run step (start (n + 1)) events
    let fills := sessionFills 0 events
    e.oms.executed = fills ∧ e.oms.orders = ∅ ∧
      (∃ processed, fills = processed ++ e.oms.fillQueue.contents ∧
        e.portfolio = PortfolioEngine.init.processFills processed) ∧
      (∀ token, (e.portfolio.getPosition token).quantity =
        (fills.map fun fill => fill.qtyFor token).sum - e.oms.queuedQty token) ∧
      e.portfolio.availableCapital = PortfolioEngine.init.startingCapital -
        (fills.map Fill.cost).sum + (e.oms.fillQueue.contents.map Fill.cost).sum := by
  intro e fills
  have hsettles : Settles fills (start (n + 1)) e :=
    settles_run (atRest_init (n + 1)) hrun
  obtain ⟨processed, hfills, hportfolio⟩ := hsettles.processed
  have hall : fills = processed ++ e.oms.fillQueue.contents := hfills
  have hprocessed : e.portfolio = PortfolioEngine.init.processFills processed := hportfolio
  refine ⟨hsettles.executed, hsettles.atRest.orders, ⟨processed, hall, hprocessed⟩,
    fun token => ?_, ?_⟩
  · have hflat : (PortfolioEngine.init.getPosition token).quantity = 0 := rfl
    rw [hprocessed, PortfolioEngine.processFills_quantity, hflat, hall, List.map_append,
      List.sum_append, queuedQty]
    omega
  · have hcapital : PortfolioEngine.init.availableCapital =
        PortfolioEngine.init.startingCapital := rfl
    rw [hprocessed, PortfolioEngine.processFills_availableCapital, hcapital, hall,
      List.map_append, List.sum_append, sub_add_eq_sub_sub, sub_add_cancel]

def roundTripSession : List EngineEvent :=
  [.call (.submit { instrumentToken := 1, quantity := 5, limitPrice := 100 } 7 0 0), .fillLoop,
    .call (.submit { instrumentToken := 1, side := .sell, quantity := 2, limitPrice := 101 } 7 2 2)]

theorem paper_session_settles_roundTrip :
    let e := Run.run step (start 1) roundTripSession
    (e.portfolio.getPosition 1).quantity = 5 ∧ e.portfolio.availableCapital = 99500 := by
  obtain ⟨-, -, -, hquantity, hcapital⟩ :=
    @paper_session_settles 0 roundTripSession (by decide +kernel)
  refine ⟨(hquantity 1).trans (by decide +kernel), hcapital.trans (by decide +kernel)⟩

end Engine

end QuantForge
