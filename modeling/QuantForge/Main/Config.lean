import QuantForge.Common.Types
import QuantForge.Library.Run
import QuantForge.Library.YamlLine

/-! `load_config`, which reads the configuration line by line: what it makes of the two switches
of the `mode` section, against the values that the text has as YAML, in texts of one-line
entries. -/
namespace QuantForge

open Library

structure ThreadConfig where
  marketDataIo : Int := 0
  tickNormalizer : Int := 1
  riskGate : Int := 6
  oms : Int := 7
  fillProcessor : Int := 8
  portfolio : Int := 3
  kafkaPublisher : Int := 4
  heartbeat : Int := 5
deriving DecidableEq

/-- The fields that `load_config` sets or leaves at their defaults. -/
structure EngineConfig where
  redisUrl : Str := "redis://127.0.0.1:6379".toList
  kafkaBrokers : Str := "127.0.0.1:9092".toList
  threads : ThreadConfig := {}
  paperTrading : Bool := true
  dryRun : Bool := false
deriving DecidableEq

namespace Config

/-- The characters of `" \t\r\n"`. -/
def isTrimmed (c : Char) : Bool :=
  c == ' ' || c == Char.ofNat 9 || c == Char.ofNat 13 || c == Char.ofNat 10

def trim (s : Str) : Str := YamlLine.strip isTrimmed s

/-- The pair that a line is read as; comments, empty lines and lines without a colon are
skipped. -/
def keyValue (line : Str) : Option (Str × Str) :=
  if line.head? = none ∨ line.head? = some '#' then none
  else match line.findIdx? (· == ':') with
    | none => none
    | some colon => some (trim (line.take colon), trim (line.drop (colon + 1)))

def assign (cfg : EngineConfig) (key val : Str) : EngineConfig :=
  { cfg with
    redisUrl := if key = "redis_url".toList then val else cfg.redisUrl
    kafkaBrokers := if key = "kafka_brokers".toList then val else cfg.kafkaBrokers
    paperTrading :=
      if key = "paper_trading".toList then decide (val = "true".toList) else cfg.paperTrading
    dryRun := if key = "dry_run".toList then decide (val = "true".toList) else cfg.dryRun }

def readLine (cfg : EngineConfig) (line : Str) : EngineConfig :=
  match keyValue line with
  | none => cfg
  | some (key, val) => assign cfg key val

/-- Defaults for i5-9300H (4 cores / 8 threads) -/
def defaults : EngineConfig :=
  { threads :=
      { marketDataIo := 0, tickNormalizer := 1, portfolio := 2, fillProcessor := 2
        riskGate := 3, oms := 3, kafkaPublisher := 4, heartbeat := 5 } }

/-- `none` is a file that cannot be opened. -/
def loadConfig : Option Str → EngineConfig
  | none => defaults
  | some text => Run.run readLine defaults (text.splitOn (Char.ofNat 10))

def read (key line : Str) : Option Str :=
  (keyValue line).bind fun pair => if pair.1 = key then some pair.2 else none

def lastRead (key text : Str) : Option Str :=
  ((text.splitOn (Char.ofNat 10)).filterMap (read key)).getLast?

/-- What becomes of a switch is what its value says: `true` switches it on, nothing but the
opposite of its default takes it from there, and no other value moves it. -/
structure Follows (v : Option Str) (default result : Bool) : Prop where
  switchedOn : v = some "true".toList → result = true
  switched : result ≠ default → v = some (if default then "false".toList else "true".toList)
  unmoved : v ≠ some "true".toList → v ≠ some "false".toList → result = default

theorem follows_true_iff {v : Option Str} {result : Bool} :
    Follows v true result ↔ (result = true ∨ v = some "false".toList) := by
  constructor
  · intro h
    by_cases hresult : result = true
    · exact .inl hresult
    · exact .inr (h.switched hresult)
  · intro h
    refine ⟨fun htrue => h.resolve_right ?_, h.resolve_left, fun _ => h.resolve_right⟩
    rw [htrue]
    decide

theorem follows_false_iff {v : Option Str} {result : Bool} :
    Follows v false result ↔ (result = true ↔ v = some "true".toList) := by
  constructor
  · exact fun h => ⟨fun hresult => h.switched (by simp [hresult]), h.switchedOn⟩
  · intro h
    refine ⟨h.mpr, fun hresult => h.mp (by simpa using hresult), fun hv _ => ?_⟩
    exact Bool.eq_false_iff.mpr (h.not.mpr hv)

theorem loadConfig_switch (key text : Str) (part : EngineConfig → Bool)
    (hassign : ∀ cfg key' val, part (assign cfg key' val) =
      if key' = key then decide (val = "true".toList) else part cfg) :
    part (loadConfig (some text)) =
      ((lastRead key text).map fun val => decide (val = "true".toList)).getD (part defaults) := by
  have hstep : ∀ cfg line, part (readLine cfg line) =
      ((read key line).map fun val => decide (val = "true".toList)).getD (part cfg) := by
    intro cfg line
    unfold readLine read
    cases keyValue line with
    | none => rfl
    | some pair =>
        rw [hassign, Option.bind_some]
        split <;> rfl
  rw [loadConfig, Run.run_lastSet part _ hstep, lastRead, ← List.getLast?_map, List.map_filterMap]

section Lines

variable {key before after : Str} {line : YamlLine.Line}

theorem isTrimmed_eq : isTrimmed = YamlLine.isSpace := by
  funext c
  simp only [isTrimmed, YamlLine.isSpace, YamlLine.isBlank, YamlLine.isBreak, Bool.or_assoc,
    Bool.or_comm (c == Char.ofNat 10)]

theorem keyValue_of_colon (hhead : (before ++ ':' :: after).head? ≠ some '#')
    (hcolon : ':' ∉ before) :
    keyValue (before ++ ':' :: after) = some (trim before, trim after) := by
  have hskip : ¬((before ++ ':' :: after).head? = none ∨
      (before ++ ':' :: after).head? = some '#') :=
    not_or.mpr ⟨by simp, hhead⟩
  have hindex : (before ++ ':' :: after).findIdx? (· == ':') = some before.length := by
    have hnone : before.findIdx? (· == ':') = none :=
      List.findIdx?_eq_none_iff.mpr fun c hc =>
        beq_eq_false_iff_ne.mpr fun h => hcolon (h ▸ hc)
    rw [List.findIdx?_append, hnone, List.findIdx?_cons]
    simp
  rw [keyValue, if_neg hskip, hindex]
  simp only [List.take_left, List.drop_length_add_append, List.drop_succ_cons, List.drop_zero]

theorem keyValue_of_colon_notMem {text : Str} (h : ':' ∉ text) : keyValue text = none := by
  have hnone : text.findIdx? (· == ':') = none :=
    List.findIdx?_eq_none_iff.mpr fun c hc => beq_eq_false_iff_ne.mpr fun heq => h (heq ▸ hc)
  rw [keyValue, hnone]
  exact ite_self none

theorem read_of_foreign {pre post : Str} {d : Char} (hpre : ':' ∉ pre) (hd : d ≠ ':')
    (hspace : YamlLine.isSpace d = false) (hkey : d ∉ key) :
    read key (pre ++ d :: post) = none := by
  rw [read]
  by_cases hcolon : ':' ∈ pre ++ d :: post
  · obtain ⟨before, after, hline, hbefore⟩ := List.eq_append_cons_of_mem hcolon
    have htake : ∀ {as bs : Str}, ':' ∉ as →
        (as ++ bs).takeWhile (· ≠ ':') = as ++ bs.takeWhile (· ≠ ':') := fun has =>
      List.takeWhile_append_of_pos fun c hc => decide_eq_true (ne_of_mem_of_not_mem hc has)
    have hmem : d ∈ before := by
      have h := congrArg (List.takeWhile (· ≠ ':')) hline
      rw [htake hpre, htake hbefore, List.takeWhile_cons_of_pos (by simpa using hd),
        List.takeWhile_cons_of_neg (by simp), List.append_nil] at h
      rw [← h]
      simp
    by_cases hhead : (pre ++ d :: post).head? = some '#'
    · rw [keyValue, if_pos (.inr hhead)]
      rfl
    · rw [hline] at hhead ⊢
      have hstrip : d ∈ trim before := by
        rw [trim, isTrimmed_eq]
        exact YamlLine.mem_strip hmem hspace
      rw [keyValue_of_colon hhead hbefore, Option.bind_some]
      exact if_neg fun (heq : trim before = key) => hkey (heq ▸ hstrip)
  · rw [keyValue_of_colon_notMem hcolon]
    rfl

theorem colon_notMem_of_blank {text : Str} (h : text.all YamlLine.isBlank) : ':' ∉ text :=
  fun hmem => absurd (List.all_eq_true.mp h _ hmem) (by decide)

theorem colon_notMem_ending (line : YamlLine.Line) : ':' ∉ line.ending := fun hmem =>
  absurd (line.isSpace_of_ending _ hmem) (by decide)

theorem keyValue_of_plain {e : YamlLine.Entry} {w : YamlLine.Plain} {colonFree : ':' ∉ w.text}
    (hplain : e.key = .plain w colonFree) (carriageReturn : Bool) :
    keyValue (YamlLine.Line.written ⟨.entry e, carriageReturn⟩) = some (w.text,
      trim (e.valueText ++ e.tail.written ++ YamlLine.Line.ending ⟨.entry e, carriageReturn⟩)) := by
  have hline : YamlLine.Line.written ⟨.entry e, carriageReturn⟩ = e.beforeText ++ ':' ::
      (e.valueText ++ e.tail.written ++ YamlLine.Line.ending ⟨.entry e, carriageReturn⟩) := by
    simp [YamlLine.Line.written, YamlLine.Content.written]
  have hbefore : ':' ∉ e.beforeText := by
    rw [YamlLine.Entry.beforeText, hplain]
    simp [YamlLine.Key.written, colonFree, colon_notMem_of_blank e.beforeColon.property]
  have hstrip : trim e.beforeText = w.text := by
    rw [trim, isTrimmed_eq, YamlLine.Entry.beforeText, hplain]
    exact YamlLine.Key.strip_written e.indent e.beforeColon
  have hhead : ∀ after : Str, (e.beforeText ++ ':' :: after).head? ≠ some '#' := by
    obtain ⟨c, rest, htext, -, hindicator⟩ := w.exists_cons
    have hne : c ≠ '#' := fun heq => absurd hindicator (heq ▸ by decide)
    intro after
    rw [YamlLine.Entry.beforeText, hplain, YamlLine.Key.written, htext]
    cases e.indent with
    | zero => simpa using hne
    | succ indent => simp [List.replicate_succ]
  rw [hline, keyValue_of_colon (hhead _) hbefore, hstrip]

/-- A quotation mark before the first colon stays in the key. -/
theorem read_of_quoted (hkey : ∀ c ∈ key, YamlLine.isWordChar c) {e : YamlLine.Entry}
    {q : YamlLine.Quoted} (hquoted : e.key = .quoted q) (carriageReturn : Bool) :
    read key (YamlLine.Line.written ⟨.entry e, carriageReturn⟩) = none := by
  have hline : YamlLine.Line.written ⟨.entry e, carriageReturn⟩ =
      List.replicate e.indent ' ' ++ q.quote.char :: (q.text ++ q.quote.char ::
        (e.beforeColon.val ++ ':' :: (e.valueText ++ e.tail.written ++
          YamlLine.Line.ending ⟨.entry e, carriageReturn⟩))) := by
    simp [YamlLine.Line.written, YamlLine.Content.written, YamlLine.Entry.beforeText, hquoted,
      YamlLine.Key.written, YamlLine.Quoted.written]
  have hquote : q.quote.char ≠ ':' := by cases q.quote <;> decide
  have hforeign : q.quote.char ∉ key := fun hmem =>
    YamlLine.isWordChar_ne (hkey _ hmem) q.quote.isWordChar_char rfl
  rw [hline]
  exact read_of_foreign (by simp) hquote q.quote.isSpace_char hforeign

theorem read_of_plain {e : YamlLine.Entry} {w : YamlLine.Plain} {colonFree : ':' ∉ w.text}
    (hplain : e.key = .plain w colonFree) (carriageReturn : Bool) :
    (read key (YamlLine.Line.written ⟨.entry e, carriageReturn⟩)).map
        (fun val => decide (val = "true".toList)) =
      if w.text = key then some (e.writes "true".toList) else none := by
  rw [read, keyValue_of_plain hplain, Option.bind_some]
  by_cases heq : w.text = key
  · have hending := YamlLine.Line.isSpace_of_ending ⟨.entry e, carriageReturn⟩
    have hiff := e.strip_eq_iff "true".toList (by decide) (List.all_eq_true.mp (by decide)) hending
    rw [if_pos heq, if_pos heq, Option.map_some, trim, isTrimmed_eq]
    exact congrArg some (Bool.eq_iff_iff.mpr (decide_eq_true_iff.trans hiff))
  · rw [if_neg heq, if_neg heq]
    rfl

theorem read_written (hkey : ∀ c ∈ key, YamlLine.isWordChar c)
    (line : YamlLine.Line) :
    (read key line.written).map (fun val => decide (val = "true".toList)) =
      (line.entry?.filter fun e => e.key.isPlain ∧ e.key.name = key).map
        fun e => e.writes "true".toList := by
  obtain ⟨content, carriageReturn⟩ := line
  cases content with
  | blank spaces =>
      have hcolon : ':' ∉ YamlLine.Line.written ⟨.blank spaces, carriageReturn⟩ :=
        List.mem_append.not.mpr
          (not_or.mpr ⟨colon_notMem_of_blank spaces.property, colon_notMem_ending _⟩)
      rw [read, keyValue_of_colon_notMem hcolon]
      rfl
  | comment indent comment =>
      have hline : YamlLine.Line.written ⟨.comment indent comment, carriageReturn⟩ =
          indent.val ++ '#' :: (comment.val ++
            YamlLine.Line.ending ⟨.comment indent comment, carriageReturn⟩) := by
        simp [YamlLine.Line.written, YamlLine.Content.written]
      have hforeign : '#' ∉ key := fun hmem =>
        YamlLine.isWordChar_ne (hkey _ hmem) (by decide) rfl
      rw [hline, read_of_foreign (colon_notMem_of_blank indent.property) (by decide) (by decide)
        hforeign]
      rfl
  | entry e =>
      cases hwritten : e.key with
      | quoted q =>
          rw [read_of_quoted hkey hwritten]
          simp [YamlLine.Line.entry?, hwritten, YamlLine.Key.isPlain]
      | plain w colonFree =>
          have hname : (e.key.isPlain ∧ e.key.name = key) ↔ w.text = key := by
            rw [hwritten]
            exact and_iff_right rfl
          rw [read_of_plain hwritten, YamlLine.Line.entry?, Option.filter_some]
          simp only [hname, decide_eq_true_eq]
          split <;> rfl

/-- On lines, a switch is what the last entry with the plain key writes. -/
theorem loadConfig_text (key : Str) (hkey : ∀ c ∈ key, YamlLine.isWordChar c)
    (part : EngineConfig → Bool)
    (hassign : ∀ cfg key' val, part (assign cfg key' val) =
      if key' = key then decide (val = "true".toList) else part cfg)
    (lines : List YamlLine.Line) :
    part (loadConfig (some (YamlLine.text lines))) =
      ((YamlLine.lastPlain key lines).map fun e => e.writes "true".toList).getD
        (part defaults) := by
  have hread : (lastRead key (YamlLine.text lines)).map (fun val => decide (val = "true".toList)) =
      (YamlLine.lastPlain key lines).map fun e => e.writes "true".toList := by
    cases lines with
    | nil => rfl
    | cons line lines =>
        rw [lastRead, YamlLine.splitOn_text (List.cons_ne_nil line lines), ← List.getLast?_map,
          List.map_filterMap, List.filterMap_map, YamlLine.lastPlain, ← List.getLast?_map,
          List.filter_filterMap, List.map_filterMap]
        exact congrArg List.getLast? (List.filterMap_congr fun line _ => read_written hkey line)
  rw [loadConfig_switch key _ part hassign, hread]

end Lines

section Forms

variable (lines : List YamlLine.Line)

/-- The last line with the plain key `paper_trading` writes the bare word `true`, or there is none,
or the last entry of the key is `false`, however it is written. -/
def PaperForms : Prop :=
  (∀ e ∈ YamlLine.lastPlain "paper_trading".toList lines, e.writes "true".toList) ∨
    YamlLine.value "paper_trading".toList lines = some "false".toList

/-- Where the last entry of `dry_run` has a plain key, it writes `true` as the bare word, if it is
that; where the key is quoted, it is `true` exactly if the last plain one writes so. -/
def DryForms : Prop :=
  ∀ e ∈ YamlLine.lastEntry "dry_run".toList lines,
    if e.key.isPlain then e.scalar = some "true".toList → e.writes "true".toList
    else (e.scalar = some "true".toList ↔
      ∃ plain ∈ YamlLine.lastPlain "dry_run".toList lines, plain.writes "true".toList)

theorem follows_paperTrading_iff :
    Follows (YamlLine.value "paper_trading".toList lines) true
        (loadConfig (some (YamlLine.text lines))).paperTrading ↔ PaperForms lines := by
  have hswitch := loadConfig_text "paper_trading".toList
    (List.all_eq_true.mp (by decide)) EngineConfig.paperTrading (fun _ _ _ => rfl) lines
  rw [follows_true_iff, hswitch, PaperForms]
  cases YamlLine.lastPlain "paper_trading".toList lines with
  | none => exact iff_of_true (.inl rfl) (.inl fun _ h => absurd h (Option.not_mem_none _))
  | some e => simp only [Option.map_some, Option.getD_some, Option.mem_some_iff, forall_eq']

theorem follows_dryRun_iff :
    Follows (YamlLine.value "dry_run".toList lines) false
        (loadConfig (some (YamlLine.text lines))).dryRun ↔ DryForms lines := by
  have hswitch := loadConfig_text "dry_run".toList
    (List.all_eq_true.mp (by decide)) EngineConfig.dryRun (fun _ _ _ => rfl) lines
  have hresult : (loadConfig (some (YamlLine.text lines))).dryRun = true ↔
      ∃ plain ∈ YamlLine.lastPlain "dry_run".toList lines, plain.writes "true".toList := by
    rw [hswitch]
    cases YamlLine.lastPlain "dry_run".toList lines with
    | none => exact iff_of_false Bool.false_ne_true fun h => Option.not_mem_none _ h.choose_spec.1
    | some e => simp only [Option.map_some, Option.getD_some, Option.mem_some_iff, exists_eq_left']
  rw [follows_false_iff, hresult, DryForms, YamlLine.value]
  cases hlast : YamlLine.lastEntry "dry_run".toList lines with
  | none =>
      rw [YamlLine.lastPlain_of_none hlast]
      simp
  | some e =>
      rw [Option.bind_some]
      simp only [Option.mem_some_iff, forall_eq']
      by_cases hplain : e.key.isPlain
      · have hwrites : e.writes "true".toList → e.scalar = some "true".toList :=
          YamlLine.Entry.scalar_of_writes (List.all_eq_true.mp (by decide))
        rw [if_pos hplain, YamlLine.lastPlain_of_lastEntry hlast hplain]
        simp only [Option.mem_some_iff, exists_eq_left']
        exact ⟨Iff.mpr, fun h => ⟨hwrites, h⟩⟩
      · rw [if_neg hplain]
        exact Iff.comm

end Forms

end Config

open Config

/-- Over texts of one-line entries, the switches follow the text exactly in these forms of the lines
that decide. -/
theorem loadConfig_follows_iff (lines : List YamlLine.Line) :
    let cfg := loadConfig (some (YamlLine.text lines))
    (Follows (YamlLine.value "paper_trading".toList lines) true cfg.paperTrading ∧
        Follows (YamlLine.value "dry_run".toList lines) false cfg.dryRun) ↔
      PaperForms lines ∧ DryForms lines :=
  and_congr (follows_paperTrading_iff lines) (follows_dryRun_iff lines)

def modeSection : Str :=
  "mode:\n".toList ++
    "  paper_trading: \"$(PAPER TRADING:-True)\"".toList ++
    " # If true: simulate orders, no real execution\n".toList ++
    "  dry_run: false #If true: start but don't submit orders\n".toList ++
    "  backtest: false # Used when running in backtest mode\n".toList

def modeLines : List YamlLine.Line :=
  [⟨.entry { indent := 0, key := .plain ⟨"mode".toList, by decide, by decide⟩ (by decide)
             value := none }, false⟩,
    ⟨.entry { indent := 2
              key := .plain ⟨"paper_trading".toList, by decide, by decide⟩ (by decide)
              value := some (⟨[' '], by decide⟩,
                .quoted ⟨.double, "$(PAPER TRADING:-True)".toList, by decide⟩)
              tail := .comment ⟨[' '], by decide⟩
                ⟨" If true: simulate orders, no real execution".toList, by decide⟩ }, false⟩,
    ⟨.entry { indent := 2, key := .plain ⟨"dry_run".toList, by decide, by decide⟩ (by decide)
              value := some (⟨[' '], by decide⟩,
                .plain ⟨"false".toList, by decide, by decide⟩)
              tail := .comment ⟨[' '], by decide⟩
                ⟨"If true: start but don't submit orders".toList, by decide⟩ }, false⟩,
    ⟨.entry { indent := 2, key := .plain ⟨"backtest".toList, by decide, by decide⟩ (by decide)
              value := some (⟨[' '], by decide⟩,
                .plain ⟨"false".toList, by decide, by decide⟩)
              tail := .comment ⟨[' '], by decide⟩
                ⟨" Used when running in backtest mode".toList, by decide⟩ }, false⟩,
    ⟨.blank ⟨[], rfl⟩, false⟩]

/-- The value of `paper_trading` in the shipped section is neither `true` nor `false`, and orders
go to the broker. -/
theorem not_follows_modeSection :
    YamlLine.text modeLines = modeSection ∧
      ¬(Follows (YamlLine.value "paper_trading".toList modeLines) true
          (loadConfig (some modeSection)).paperTrading ∧
        Follows (YamlLine.value "dry_run".toList modeLines) false
          (loadConfig (some modeSection)).dryRun) := by
  refine ⟨by decide +kernel, ?_⟩
  rintro ⟨hpaper, -⟩
  have hlive : (loadConfig (some modeSection)).paperTrading = false := by decide +kernel
  have hvalue : YamlLine.value "paper_trading".toList modeLines =
      some "$(paper trading:-true)".toList := by decide +kernel
  have h := hpaper.unmoved (by rw [hvalue]; decide) (by rw [hvalue]; decide)
  exact Bool.false_ne_true (hlive.symm.trans h)

end QuantForge
