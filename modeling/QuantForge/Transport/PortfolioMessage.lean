import QuantForge.Library.GeneralFormat
import QuantForge.Portfolio.PortfolioEngine

/-! `serialize_portfolio` of `transport/kafka_publisher.cpp`, and what a reader of the portfolio
topic makes of the snapshots that the fill loop hands out. A stream writes an amount with six
significant digits. -/
namespace QuantForge

open Library

namespace KafkaPublisher

def serializePortfolio (s : PortfolioSnapshot) : Str :=
  "\x7b\"available_capital\":".toList ++ general 5 s.availableCapital ++
    ",\"realized_pnl\":".toList ++ general 5 s.totalRealizedPnl ++
    ",\"unrealized_pnl\":".toList ++ general 5 s.totalUnrealizedPnl ++
    ",\"ts\":".toList ++ Nat.toDigits 10 s.snapshotTsNs ++ "\x7d".toList

def portfolioMembers (s : PortfolioSnapshot) : List (Str × Json) :=
  [("available_capital".toList, .number (significant 5 s.availableCapital)),
    ("realized_pnl".toList, .number (significant 5 s.totalRealizedPnl)),
    ("unrealized_pnl".toList, .number (significant 5 s.totalUnrealizedPnl)),
    ("ts".toList, .number s.snapshotTsNs)]

theorem portfolioMembers_nodup (s : PortfolioSnapshot) :
    ((portfolioMembers s).map Prod.fst).Nodup := by
  change ["available_capital".toList, "realized_pnl".toList, "unrealized_pnl".toList,
    "ts".toList].Nodup
  decide

theorem document_serializePortfolio (s : PortfolioSnapshot) :
    Json.Document (.object (portfolioMembers s)) (serializePortfolio s) := by
  let ts : Str := '"' :: ("ts".toList ++ '"' :: ':' :: (Nat.toDigits 10 s.snapshotTsNs ++ ['\x7d']))
  let unrealized : Str := '"' :: ("unrealized_pnl".toList ++
    '"' :: ':' :: (general 5 s.totalUnrealizedPnl ++ ',' :: ts))
  let realized : Str := '"' :: ("realized_pnl".toList ++
    '"' :: ':' :: (general 5 s.totalRealizedPnl ++ ',' :: unrealized))
  let capital : Str := '"' :: ("available_capital".toList ++
    '"' :: ':' :: (general 5 s.availableCapital ++ ',' :: realized))
  have hts : Json.Text (.rest .member) ((portfolioMembers s).drop 3) ts [] :=
    .last (Json.numberMember_of_plain rfl _ rfl _) rfl
  have hunrealized : Json.Text (.rest .member) ((portfolioMembers s).drop 2) unrealized [] :=
    .next (generalMember_of_plain 5 _ rfl rfl _) rfl hts
  have hrealized : Json.Text (.rest .member) ((portfolioMembers s).drop 1) realized [] :=
    .next (generalMember_of_plain 5 _ rfl rfl _) rfl hunrealized
  have hall : Json.Text (.rest .member) (portfolioMembers s) capital [] :=
    .next (generalMember_of_plain 5 _ rfl rfl _) rfl hrealized
  have htext : serializePortfolio s = '\x7b' :: capital := by
    have hopen : "\x7b\"available_capital\":".toList =
        '\x7b' :: '"' :: ("available_capital".toList ++ ['"', ':']) := rfl
    have hrealized : ",\"realized_pnl\":".toList =
        ',' :: '"' :: ("realized_pnl".toList ++ ['"', ':']) := rfl
    have hunrealized : ",\"unrealized_pnl\":".toList =
        ',' :: '"' :: ("unrealized_pnl".toList ++ ['"', ':']) := rfl
    have hts : ",\"ts\":".toList = ',' :: '"' :: ("ts".toList ++ ['"', ':']) := rfl
    have hclose : "\x7d".toList = ['\x7d'] := rfl
    unfold serializePortfolio
    simp only [hopen, hrealized, hunrealized, hts, hclose, List.append_assoc, List.cons_append,
      List.nil_append, capital, realized, unrealized, ts]
  rw [htext]
  exact ⟨[], .object (.full hall), rfl⟩

/-- The number is the amount up to half a unit of its sixth digit, and the amount itself when it
has no more digits. -/
structure SixDigits (number amount : ℚ) : Prop where
  close : |number - amount| ≤ |amount| / 200000
  exact_iff : number = amount ↔ ∃ n k : Int, |n| < 1000000 ∧ amount = n * 10 ^ k

theorem sixDigits_significant (amount : ℚ) : SixDigits (significant 5 amount) amount where
  close := (abs_significant_sub_le 5 amount).trans_eq (by norm_num)
  exact_iff := significant_eq_iff 5 amount

/-- A reader finds each amount up to its sixth digit, and the time. -/
structure ReadsAs (d : Json.Decoder) (text : Str) (capital realized unrealized : ℚ) (tsNs : Nat) :
    Prop where
  wellFormed : ∃ j, Json.Document j text
  read : ∀ j, Json.Document j text → ∃ ms capital' realized' unrealized',
    j = .object ms ∧ d.pick ms "available_capital".toList = some (.number capital') ∧
      d.pick ms "realized_pnl".toList = some (.number realized') ∧
      d.pick ms "unrealized_pnl".toList = some (.number unrealized') ∧
      d.pick ms "ts".toList = some (.number tsNs) ∧
      SixDigits capital' capital ∧ SixDigits realized' realized ∧
      SixDigits unrealized' unrealized

theorem readsAs_serializePortfolio (d : Json.Decoder) (s : PortfolioSnapshot) :
    ReadsAs d (serializePortfolio s) s.availableCapital s.totalRealizedPnl s.totalUnrealizedPnl
      s.snapshotTsNs := by
  have htext := document_serializePortfolio s
  have hpick : ∀ m ∈ portfolioMembers s, d.pick (portfolioMembers s) m.1 = some m.2 :=
    fun m hm => d.only (portfolioMembers_nodup s) hm
  refine ⟨⟨_, htext⟩, fun j hj => ⟨portfolioMembers s, _, _, _, hj.unique htext,
    hpick _ (.head _), hpick _ (.tail _ (.head _)), hpick _ (.tail _ (.tail _ (.head _))),
    hpick _ (.tail _ (.tail _ (.tail _ (.head _)))), sixDigits_significant _,
    sixDigits_significant _, sixDigits_significant _⟩⟩

example : serializePortfolio { availableCapital := 1234567, totalRealizedPnl := -1 / 8 } =
    "\x7b\"available_capital\":1.23457e+06,\"realized_pnl\":-0.125,".toList ++
      "\"unrealized_pnl\":0,\"ts\":0\x7d".toList := by
  decide +kernel

end KafkaPublisher

namespace PortfolioEngine

def updates : PortfolioEngine → List Fill → List PortfolioSnapshot
  | _, [] => []
  | engine, fill :: fills =>
      (engine.processFill fill).snapshot :: updates (engine.processFill fill) fills

theorem length_updates (engine : PortfolioEngine) (fills : List Fill) :
    (engine.updates fills).length = fills.length := by
  induction fills generalizing engine with
  | nil => rfl
  | cons fill fills ih => exact congrArg Nat.succ (ih (engine.processFill fill))

theorem getElem?_updates (engine : PortfolioEngine) (fills : List Fill) (k : Nat) :
    (engine.updates fills)[k]? =
      fills[k]?.map fun _ => (engine.processFills (fills.take (k + 1))).snapshot := by
  induction fills generalizing engine k with
  | nil => rfl
  | cons fill fills ih =>
      cases k with
      | zero => rfl
      | succ k => exact ih (engine.processFill fill) k

theorem processFills_totalUnrealizedPnl (engine : PortfolioEngine) (fills : List Fill) :
    (engine.processFills fills).snapshot.totalUnrealizedPnl =
      engine.snapshot.totalUnrealizedPnl := by
  induction fills generalizing engine with
  | nil => rfl
  | cons fill fills ih => exact ih (engine.processFill fill)

theorem processFills_snapshotTsNs (engine : PortfolioEngine) {fills : List Fill} {k : Nat}
    {fill : Fill} (hfill : fills[k]? = some fill) :
    (engine.processFills (fills.take (k + 1))).snapshot.snapshotTsNs = fill.fillTsNs := by
  induction fills generalizing engine k with
  | nil => cases hfill
  | cons first fills ih =>
      cases k with
      | zero =>
          obtain rfl := Option.some.inj hfill
          rfl
      | succ k => exact ih (engine.processFill first) hfill

/-- One message for each fill, in their order: the capital that it shows is what the fills up to
it have left of the capital, and the unrealized profit never moves. -/
theorem portfolio_updates_read (d : Json.Decoder) (engine : PortfolioEngine) (fills : List Fill) :
    let messages := (engine.updates fills).map KafkaPublisher.serializePortfolio
    messages.length = fills.length ∧
      ∀ k fill, fills[k]? = some fill → ∃ text, messages[k]? = some text ∧
        KafkaPublisher.ReadsAs d text
          (engine.availableCapital - ((fills.take (k + 1)).map Fill.cost).sum)
          (engine.processFills (fills.take (k + 1))).snapshot.totalRealizedPnl
          engine.snapshot.totalUnrealizedPnl fill.fillTsNs := by
  intro messages
  have hget : ∀ k, messages[k]? = fills[k]?.map fun _ =>
      KafkaPublisher.serializePortfolio (engine.processFills (fills.take (k + 1))).snapshot := by
    intro k
    rw [List.getElem?_map, getElem?_updates, Option.map_map]
    rfl
  constructor
  · rw [List.length_map, length_updates]
  · intro k fill hfill
    refine ⟨_, by rw [hget, hfill]; rfl, ?_⟩
    have hread := KafkaPublisher.readsAs_serializePortfolio d
      (engine.processFills (fills.take (k + 1))).snapshot
    rw [processFills_totalUnrealizedPnl, engine.processFills_snapshotTsNs hfill] at hread
    have hcapital := engine.processFills_availableCapital (fills.take (k + 1))
    unfold availableCapital at hcapital
    rwa [hcapital] at hread

end PortfolioEngine

end QuantForge
