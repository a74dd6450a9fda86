import QuantForge.Common.Types
import QuantForge.Library.JsonText

/-! `serialize_alert` of `transport/kafka_publisher.cpp`, whose texts are read as UTF-8. -/
namespace QuantForge

open Library

inductive AlertLevel where
  | debug
  | info
  | warn
  | high
  | critical
  deriving DecidableEq

def AlertLevel.toNat : AlertLevel → Nat
  | .debug => 0
  | .info => 1
  | .warn => 2
  | .high => 3
  | .critical => 4

structure RiskAlert where
  level : AlertLevel
  strategyId : Str := []
  message : Str := []
  tsNs : Nat := 0
  deriving DecidableEq

namespace KafkaPublisher

/-- A character array is written up to its first NUL. -/
def serializeAlert (a : RiskAlert) : Str :=
  "\x7b\"level\":".toList ++ Nat.toDigits 10 a.level.toNat ++ ",\"strategy\":\"".toList ++
    cString a.strategyId ++ "\"".toList ++ ",\"message\":\"".toList ++ cString a.message ++
    "\"".toList ++ ",\"ts\":".toList ++ Nat.toDigits 10 a.tsNs ++ "\x7d".toList

def members (a : RiskAlert) : List (Str × Json) :=
  [("level".toList, .number a.level.toNat), ("strategy".toList, .string (cString a.strategyId)),
    ("message".toList, .string (cString a.message)), ("ts".toList, .number a.tsNs)]

def DecodesTo (d : Json.Decoder) (s : Str) (a : RiskAlert) : Prop :=
  (∃ j, Json.Document j s) ∧ ∀ j, Json.Document j s →
    ∃ ms, j = .object ms ∧ ∀ m ∈ members a, d.pick ms m.1 = some m.2

def SameAlert (a b : RiskAlert) : Prop :=
  a.level = b.level ∧ cString a.strategyId = cString b.strategyId ∧
    cString a.message = cString b.message ∧ a.tsNs = b.tsNs

instance (a b : RiskAlert) : Decidable (SameAlert a b) :=
  inferInstanceAs (Decidable (_ ∧ _))

def Plain (text : Str) : Prop := ∀ c ∈ text, Json.isPlain c

instance (text : Str) : Decidable (Plain text) := List.decidableBAll _ text

variable {a b : RiskAlert}

theorem names_nodup (a : RiskAlert) : ((members a).map Prod.fst).Nodup := by
  change ["level".toList, "strategy".toList, "message".toList, "ts".toList].Nodup
  decide

theorem document_serializeAlert (hid : Plain (cString a.strategyId))
    (hmessage : Plain (cString a.message)) :
    Json.Document (.object (members a)) (serializeAlert a) := by
  let ts : Str := '"' :: ("ts".toList ++ '"' :: ':' :: (Nat.toDigits 10 a.tsNs ++ ['\x7d']))
  let message : Str :=
    '"' :: ("message".toList ++ '"' :: ':' :: '"' :: (cString a.message ++ '"' :: ',' :: ts))
  let strategy : Str :=
    '"' :: ("strategy".toList ++
      '"' :: ':' :: '"' :: (cString a.strategyId ++ '"' :: ',' :: message))
  let level : Str :=
    '"' :: ("level".toList ++ '"' :: ':' :: (Nat.toDigits 10 a.level.toNat ++ ',' :: strategy))
  have hts : Json.Text (.rest .member) [("ts".toList, .number a.tsNs)] ts [] :=
    .last (Json.numberMember_of_plain rfl _ rfl _) rfl
  have hrest : Json.Text (.rest .member)
      [("message".toList, .string (cString a.message)), ("ts".toList, .number a.tsNs)] message [] :=
    .next (Json.stringMember_of_plain rfl hmessage _) rfl hts
  have hfrom : Json.Text (.rest .member) ((members a).tail) strategy [] :=
    .next (Json.stringMember_of_plain rfl hid _) rfl hrest
  have hlevel : Json.Text (.one .member) ("level".toList, .number a.level.toNat) level
      (',' :: strategy) := Json.numberMember_of_plain rfl _ rfl _
  have hall : Json.Text (.rest .member) (members a) level [] := .next hlevel rfl hfrom
  have htext : serializeAlert a = '\x7b' :: level := by
    have hopen : "\x7b\"level\":".toList = '\x7b' :: '"' :: ("level".toList ++ ['"', ':']) := rfl
    have hstrategy : ",\"strategy\":\"".toList =
        ',' :: '"' :: ("strategy".toList ++ ['"', ':', '"']) := rfl
    have hmessage : ",\"message\":\"".toList =
        ',' :: '"' :: ("message".toList ++ ['"', ':', '"']) := rfl
    have hts : ",\"ts\":".toList = ',' :: '"' :: ("ts".toList ++ ['"', ':']) := rfl
    have hquote : "\"".toList = ['"'] := rfl
    have hclose : "\x7d".toList = ['\x7d'] := rfl
    unfold serializeAlert
    simp only [hopen, hstrategy, hmessage, hts, hquote, hclose, List.append_assoc,
      List.cons_append, List.nil_append, level, strategy, message, ts]
  rw [htext]
  exact ⟨[], .object (.full hall), rfl⟩

private theorem weight_toDigits (n : Nat) : Json.weight (Nat.toDigits 10 n) = 0 := by
  refine List.countP_eq_zero.mpr fun c hc => ?_
  have hdigit := Nat.isDigit_of_mem_toDigits (by decide) (by decide) hc
  simp [Json.isNumberChar, hdigit]

theorem weight_serializeAlert (a : RiskAlert) : Json.weight (serializeAlert a) =
    Json.weight (cString a.strategyId) + Json.weight (cString a.message) + 38 := by
  have hlevel : Json.weight "\x7b\"level\":".toList = 7 := by decide
  have hstrategy : Json.weight ",\"strategy\":\"".toList = 12 := by decide
  have hmessage : Json.weight ",\"message\":\"".toList = 10 := by decide
  have hts : Json.weight ",\"ts\":".toList = 6 := by decide
  have hquote : Json.weight "\"".toList = 1 := by decide
  have hbrace : Json.weight "\x7d".toList = 1 := by decide
  unfold serializeAlert
  simp only [Json.weight_append, weight_toDigits]
  omega

theorem cost_members (a : RiskAlert) :
    ((members a).map fun m => Json.Element.member.cost m + 1).sum =
      Json.stringCost (cString a.strategyId) + Json.stringCost (cString a.message) + 33 := by
  have hlevel : Json.stringCost "level".toList = 5 := by decide
  have hstrategy : Json.stringCost "strategy".toList = 9 := by decide
  have hmessage : Json.stringCost "message".toList = 7 := by decide
  have hts : Json.stringCost "ts".toList = 4 := by decide
  simp only [members, Json.Element.cost, Json.cost, List.map_cons, List.map_nil, List.sum_cons,
    List.sum_nil]
  omega

theorem plain_of_document {ms : List (Str × Json)}
    (h : Json.Document (.object ms) (serializeAlert a)) (hmem : ∀ m ∈ members a, m ∈ ms) :
    Plain (cString a.strategyId) ∧ Plain (cString a.message) := by
  have hle := h.weight_le (names_nodup a) hmem
  rw [cost_members, weight_serializeAlert] at hle
  unfold Json.stringCost at hle
  have hid : Json.escapes (cString a.strategyId) = 0 := by omega
  have hmessage : Json.escapes (cString a.message) = 0 := by omega
  constructor
  · intro c hc
    simpa using List.countP_eq_zero.mp hid c hc
  · intro c hc
    simpa using List.countP_eq_zero.mp hmessage c hc

/-- Plain texts are read back, and nothing but plain texts. -/
theorem decodesTo_iff (d : Json.Decoder) (a : RiskAlert) :
    DecodesTo d (serializeAlert a) a ↔
      Plain (cString a.strategyId) ∧ Plain (cString a.message) := by
  constructor
  · rintro ⟨⟨j, hj⟩, hall⟩
    obtain ⟨ms, rfl, hpick⟩ := hall j hj
    exact plain_of_document hj fun m hm => d.mem (hpick m hm)
  · rintro ⟨hid, hmessage⟩
    have htext := document_serializeAlert hid hmessage
    refine ⟨⟨_, htext⟩, fun j hj => ⟨members a, hj.unique htext, fun m hm => ?_⟩⟩
    exact d.only (names_nodup a) hm

theorem AlertLevel.toNat_injective : Function.Injective AlertLevel.toNat := by
  intro l l' h
  cases l <;> cases l' <;> first | rfl | cases h

theorem sameAlert_of_members (h : members a = members b) : SameAlert a b := by
  simp only [members, List.cons.injEq, Prod.mk.injEq, Json.number.injEq, Json.string.injEq,
    Nat.cast_inj, true_and, and_true] at h
  obtain ⟨hlevel, hid, hmessage, hts⟩ := h
  exact ⟨AlertLevel.toNat_injective hlevel, hid, hmessage, hts⟩

theorem sameAlert_of_serializeAlert_eq {d : Json.Decoder} (ha : DecodesTo d (serializeAlert a) a)
    (hb : DecodesTo d (serializeAlert b) b) (h : serializeAlert a = serializeAlert b) :
    SameAlert a b := by
  obtain ⟨hid, hmessage⟩ := (decodesTo_iff d a).mp ha
  obtain ⟨hid', hmessage'⟩ := (decodesTo_iff d b).mp hb
  have htext := document_serializeAlert hid hmessage
  rw [h] at htext
  have heq := htext.unique (document_serializeAlert hid' hmessage')
  exact sameAlert_of_members (Json.object.inj heq)

/-- A text that reads back as one alert is of no other alert that is read back. -/
theorem alerts_decode_iff_plain (d : Json.Decoder) :
    (∀ a, DecodesTo d (serializeAlert a) a ↔
      Plain (cString a.strategyId) ∧ Plain (cString a.message)) ∧
    ∀ a b, DecodesTo d (serializeAlert a) a → DecodesTo d (serializeAlert b) b →
      serializeAlert a = serializeAlert b → SameAlert a b :=
  ⟨decodesTo_iff d, fun _ _ => sameAlert_of_serializeAlert_eq⟩

example : DecodesTo .first (serializeAlert ⟨.warn, "momentum".toList, "drawdown 5%".toList, 7⟩)
    ⟨.warn, "momentum".toList, "drawdown 5%".toList, 7⟩ :=
  (decodesTo_iff .first _).mpr (by decide +kernel)

/-- No decoder reads back a message with a quote, and a message can imitate the names. -/
theorem alerts_not_decoded :
    (∀ d, ¬DecodesTo d (serializeAlert ⟨.high, "momentum".toList, "limit \"hard\"".toList, 7⟩)
      ⟨.high, "momentum".toList, "limit \"hard\"".toList, 7⟩) ∧
    serializeAlert ⟨.high, "a".toList, "b\",\"message\":\"c".toList, 7⟩ =
      serializeAlert ⟨.high, "a\",\"message\":\"b".toList, "c".toList, 7⟩ ∧
    ¬SameAlert ⟨.high, "a".toList, "b\",\"message\":\"c".toList, 7⟩
      ⟨.high, "a\",\"message\":\"b".toList, "c".toList, 7⟩ := by
  refine ⟨fun d h => ?_, by decide +kernel, by decide +kernel⟩
  exact absurd ((decodesTo_iff d _).mp h) (by decide +kernel)

end KafkaPublisher

end QuantForge
