import Mathlib.Data.List.DropRight

/-! Texts of one-line YAML: blank lines, comments, and entries of block mappings with a key and a
value on the one line. A line is kept as it is written, so that its text and the scalar that it
gives its key are both computed from it. What needs more than one line or an escape is left out:
block scalars, values on the next line, flow mappings, anchors and tags. -/
namespace QuantForge.Library.YamlLine

def isBlank (c : Char) : Bool := c == ' ' || c == Char.ofNat 9

def isBreak (c : Char) : Bool := c == Char.ofNat 10 || c == Char.ofNat 13

def isSpace (c : Char) : Bool := isBlank c || isBreak c

abbrev Blanks := {text : List Char // text.all isBlank}

abbrev Gap := {text : List Char // text ≠ [] ∧ text.all isBlank}

abbrev OneLine := {text : List Char // text.all (!isBreak ·)}

inductive Quote where
  | single
  | double
  deriving DecidableEq

def Quote.char : Quote → Char
  | .single => Char.ofNat 39
  | .double => Char.ofNat 34

/-- Neither the end of the text nor the start of an escape. -/
def Quote.allows (quote : Quote) (c : Char) : Bool :=
  !isBreak c && c != quote.char && !(quote == .double && c == Char.ofNat 92)

structure Quoted where
  quote : Quote
  text : List Char
  allowed : text.all quote.allows

def Quoted.written (q : Quoted) : List Char := q.quote.char :: q.text ++ [q.quote.char]

/-- The indicators that no plain text begins with. -/
def isIndicator (c : Char) : Bool :=
  c == Char.ofNat 34 || c == Char.ofNat 39 || c ∈ ",[]\x7b\x7d#&*!|>%@`".toList

/-- Those that one may begin with when no blank follows. -/
def isLeader (c : Char) : Bool := c == '-' || c == '?' || c == ':'

/-- The markers that a document begins or ends with. -/
def isDocumentMarker (text : List Char) : Bool :=
  text.take 3 == "---".toList || text.take 3 == "...".toList

def startsPlain : List Char → Bool
  | [] => false
  | c :: rest =>
      !isSpace c && !isIndicator c && decide (c.val < 128) &&
        (!isLeader c || rest.head?.any (!isBlank ·)) && !isDocumentMarker (c :: rest)

/-- No line break, comment or colon before a blank, and no blank at the end. -/
def staysPlain : Bool → List Char → Bool
  | afterBlank, [] => !afterBlank
  | afterBlank, c :: rest =>
      !isBreak c && !(afterBlank && c == '#') && !(c == ':' && rest.head?.all isBlank) &&
        staysPlain (isBlank c) rest

structure Plain where
  text : List Char
  starts : startsPlain text
  stays : staysPlain false text

/-- A plain key has no colon of its own. -/
inductive Key where
  | plain (word : Plain) (colonFree : ':' ∉ word.text)
  | quoted (q : Quoted)

def Key.written : Key → List Char
  | .plain word _ => word.text
  | .quoted q => q.written

def Key.name : Key → List Char
  | .plain word _ => word.text
  | .quoted q => q.text

def Key.isPlain : Key → Bool
  | .plain .. => true
  | .quoted _ => false

/-- The items of a flow sequence of numbers and words. -/
def isItemChar (c : Char) : Bool := c.isAlphanum || c ∈ "_.,- ".toList

inductive Value where
  | plain (word : Plain)
  | quoted (q : Quoted)
  | sequence (items : List Char) (allowed : items.all isItemChar)

def Value.written : Value → List Char
  | .plain word => word.text
  | .quoted q => q.written
  | .sequence items _ => '[' :: items ++ [']']

/-- The scalar, with its letters in lower case. -/
def Value.scalar : Value → Option (List Char)
  | .plain word => some (word.text.map Char.toLower)
  | .quoted q => some (q.text.map Char.toLower)
  | .sequence .. => none

/-- What follows a value: a comment needs a blank before it. -/
inductive Tail where
  | blanks (spaces : Blanks)
  | comment (gap : Gap) (text : OneLine)

def Tail.written : Tail → List Char
  | .blanks spaces => spaces.val
  | .comment gap text => gap.val ++ '#' :: text.val

structure Entry where
  indent : Nat
  key : Key
  beforeColon : Blanks := ⟨[], rfl⟩
  value : Option (Gap × Value)
  tail : Tail := .blanks ⟨[], rfl⟩

namespace Entry

def beforeText (e : Entry) : List Char :=
  List.replicate e.indent ' ' ++ e.key.written ++ e.beforeColon.val

def valueText (e : Entry) : List Char :=
  e.value.elim [] fun value => value.1.val ++ value.2.written

def scalar (e : Entry) : Option (List Char) := e.value.bind fun value => value.2.scalar

/-- The value is the word without quotes, and no comment follows. -/
def writes (e : Entry) (word : List Char) : Bool :=
  match e.value, e.tail with
  | some (_, .plain value), .blanks _ => value.text == word
  | _, _ => false

end Entry

inductive Content where
  | blank (spaces : Blanks)
  | comment (indent : Blanks) (text : OneLine)
  | entry (e : Entry)

def Content.written : Content → List Char
  | .blank spaces => spaces.val
  | .comment indent text => indent.val ++ '#' :: text.val
  | .entry e => e.beforeText ++ ':' :: (e.valueText ++ e.tail.written)

/-- A line ends before its line feed. -/
structure Line where
  content : Content
  carriageReturn : Bool := false

def Line.ending (line : Line) : List Char :=
  if line.carriageReturn then [Char.ofNat 13] else []

def Line.written (line : Line) : List Char := line.content.written ++ line.ending

def Line.entry? (line : Line) : Option Entry :=
  match line.content with
  | .entry e => some e
  | _ => none

def text (lines : List Line) : List Char :=
  List.intercalate [Char.ofNat 10] (lines.map Line.written)

/-- The last entry of the key, whose scalar is the value of the key. -/
def lastEntry (key : List Char) (lines : List Line) : Option Entry :=
  ((lines.filterMap Line.entry?).filter fun e => e.key.name = key).getLast?

/-- The last entry that writes the key without quotes. -/
def lastPlain (key : List Char) (lines : List Line) : Option Entry :=
  ((lines.filterMap Line.entry?).filter fun e => e.key.isPlain ∧ e.key.name = key).getLast?

def value (key : List Char) (lines : List Line) : Option (List Char) :=
  (lastEntry key lines).bind Entry.scalar

def strip (p : Char → Bool) (text : List Char) : List Char :=
  (text.dropWhile p).rdropWhile p

section Strip

variable {p : Char → Bool} {c : Char}

theorem dropWhile_eq_self {text : List Char} (h : ∀ c ∈ text.head?, p c = false) :
    text.dropWhile p = text := by
  cases text with
  | nil => rfl
  | cons c text => exact List.dropWhile_cons_of_neg (by simp [h c rfl])

theorem mem_dropWhile {text : List Char} (hmem : c ∈ text) (hc : p c = false) :
    c ∈ text.dropWhile p := by
  rw [← List.takeWhile_append_dropWhile (p := p) (l := text), List.mem_append] at hmem
  refine hmem.resolve_left fun h => ?_
  exact Bool.false_ne_true (hc.symm.trans (List.mem_takeWhile_imp h))

theorem mem_strip {text : List Char} (hmem : c ∈ text) (hc : p c = false) :
    c ∈ strip p text := by
  rw [strip, List.rdropWhile, List.mem_reverse]
  exact mem_dropWhile (List.mem_reverse.mpr (mem_dropWhile hmem hc)) hc

theorem strip_eq_nil {text : List Char} (h : ∀ c ∈ text, p c) : strip p text = [] := by
  rw [strip, List.dropWhile_eq_nil_iff.mpr h]
  rfl

theorem strip_surrounded {indent text trailing : List Char} (hindent : ∀ c ∈ indent, p c)
    (hhead : ∀ c ∈ text.head?, p c = false) (hlast : ∀ c ∈ text.getLast?, p c = false)
    (htrailing : ∀ c ∈ trailing, p c) : strip p (indent ++ (text ++ trailing)) = text := by
  rw [strip, List.dropWhile_append_of_pos hindent]
  cases text with
  | nil => exact strip_eq_nil htrailing
  | cons c text =>
      have hself : (c :: text ++ trailing).dropWhile p = c :: text ++ trailing :=
        dropWhile_eq_self fun d hd => hhead d hd
      rw [hself, List.rdropWhile, List.reverse_append,
        List.dropWhile_append_of_pos fun d hd => htrailing d (List.mem_reverse.mp hd),
        dropWhile_eq_self fun d hd => hlast d (by rwa [← List.head?_reverse]),
        List.reverse_reverse]

end Strip

def isWordChar (c : Char) : Bool := c.isLower || c == '_'

section Written

theorem isWordChar_ne {c d : Char} (hc : isWordChar c) (hd : isWordChar d = false) : c ≠ d := by
  rintro rfl
  exact Bool.false_ne_true (hd.symm.trans hc)

theorem toLower_of_isWordChar {c : Char} (h : isWordChar c) : c.toLower = c := by
  unfold Char.toLower
  rw [dif_neg]
  rintro ⟨-, hupper⟩
  rw [isWordChar, Bool.or_eq_true, beq_iff_eq] at h
  rcases h with hlower | rfl
  · have hlow : 'a'.val ≤ c.val := of_decide_eq_true (Bool.and_eq_true_iff.mp hlower).1
    exact absurd (UInt32.le_trans hlow hupper) (by decide)
  · exact absurd hupper (by decide)

theorem isSpace_of_isBlank {c : Char} (h : isBlank c) : isSpace c := by
  rw [isSpace, h, Bool.true_or]

theorem Quote.isSpace_char (quote : Quote) : isSpace quote.char = false := by
  cases quote <;> decide

theorem Quote.isWordChar_char (quote : Quote) : isWordChar quote.char = false := by
  cases quote <;> decide

theorem isSpace_getLast_of_staysPlain {text : List Char} {afterBlank : Bool}
    (h : staysPlain afterBlank text) : ∀ c ∈ text.getLast?, isSpace c = false := by
  induction text generalizing afterBlank with
  | nil => exact fun c hc => absurd hc (Option.not_mem_none c)
  | cons c rest ih =>
      simp only [staysPlain, Bool.and_eq_true, Bool.not_eq_true'] at h
      cases rest with
      | nil =>
          have hblank : isBlank c = false := by simpa [staysPlain] using h.2
          intro d hd
          obtain rfl : c = d := by simpa using hd
          rw [isSpace, hblank, h.1.1.1, Bool.or_false]
      | cons d rest => exact fun x hx => ih h.2 x (by rwa [List.getLast?_cons_cons] at hx)

theorem Plain.exists_cons (w : Plain) : ∃ c rest, w.text = c :: rest ∧ isSpace c = false ∧
    isIndicator c = false := by
  obtain ⟨text, hstarts, _⟩ := w
  cases text with
  | nil => exact absurd hstarts Bool.false_ne_true
  | cons c rest =>
      simp only [startsPlain, Bool.and_eq_true, Bool.not_eq_true'] at hstarts
      exact ⟨c, rest, rfl, hstarts.1.1.1.1, hstarts.1.1.1.2⟩

theorem Plain.strip_eq (w : Plain) {before after : List Char} (hbefore : ∀ c ∈ before, isSpace c)
    (hafter : ∀ c ∈ after, isSpace c) : strip isSpace (before ++ (w.text ++ after)) = w.text := by
  obtain ⟨c, rest, htext, hspace, -⟩ := w.exists_cons
  refine strip_surrounded hbefore (fun d hd => ?_) (isSpace_getLast_of_staysPlain w.stays) hafter
  rw [htext] at hd
  obtain rfl : c = d := by simpa using hd
  exact hspace

theorem isSpace_of_blanks (spaces : Blanks) : ∀ c ∈ spaces.val, isSpace c := fun c hc =>
  isSpace_of_isBlank (List.all_eq_true.mp spaces.property c hc)

theorem isSpace_of_gap (gap : Gap) : ∀ c ∈ gap.val, isSpace c := fun c hc =>
  isSpace_of_isBlank (List.all_eq_true.mp gap.property.2 c hc)

theorem Line.isSpace_of_ending (line : Line) : ∀ c ∈ line.ending, isSpace c := by
  intro c hc
  unfold Line.ending at hc
  split at hc
  · rw [List.mem_singleton.mp hc]
    decide
  · exact absurd hc List.not_mem_nil

/-- What follows the colon, without the space at its ends, is a word exactly when the entry writes
the word. -/
theorem Entry.strip_eq_iff (e : Entry) (word : List Char) {ending : List Char} (hne : word ≠ [])
    (hword : ∀ c ∈ word, isWordChar c) (hending : ∀ c ∈ ending, isSpace c) :
    strip isSpace (e.valueText ++ e.tail.written ++ ending) = word ↔ e.writes word := by
  have hforeign : ∀ {d : Char} {text : List Char}, d ∈ text → isSpace d = false →
      isWordChar d = false → strip isSpace text ≠ word := by
    intro d text hmem hspace hd heq
    exact isWordChar_ne (hword d (heq ▸ mem_strip hmem hspace)) hd rfl
  obtain ⟨indent, key, beforeColon, value, tail⟩ := e
  cases tail with
  | comment gap comment =>
      refine iff_of_false (hforeign (d := '#') ?_ (by decide) (by decide)) ?_
      · simp [Tail.written]
      · cases value with
        | none => exact Bool.false_ne_true
        | some v => obtain ⟨_, _ | _ | _⟩ := v <;> exact Bool.false_ne_true
  | blanks spaces =>
      have hafter : ∀ c ∈ spaces.val ++ ending, isSpace c := fun c hc =>
        (List.mem_append.mp hc).elim (isSpace_of_blanks spaces c) (hending c)
      cases value with
      | none =>
          have hstrip : strip isSpace (spaces.val ++ ending) = [] := strip_eq_nil hafter
          exact iff_of_false (fun h => hne (h.symm.trans hstrip)) Bool.false_ne_true
      | some v =>
          obtain ⟨gap, value⟩ := v
          cases value with
          | plain w =>
              have hstrip := w.strip_eq (isSpace_of_gap gap) hafter
              simp only [valueText, Option.elim_some, Value.written, Tail.written,
                List.append_assoc, writes, beq_iff_eq]
              rw [hstrip]
          | quoted q =>
              refine iff_of_false (hforeign (d := q.quote.char) ?_ q.quote.isSpace_char
                q.quote.isWordChar_char) Bool.false_ne_true
              simp [valueText, Value.written, Quoted.written]
          | sequence items allowed =>
              refine iff_of_false (hforeign (d := '[') ?_ (by decide) (by decide))
                Bool.false_ne_true
              simp [valueText, Value.written]

theorem Entry.scalar_of_writes {e : Entry} {word : List Char} (hword : ∀ c ∈ word, isWordChar c)
    (h : e.writes word) : e.scalar = some word := by
  obtain ⟨indent, key, beforeColon, value, tail⟩ := e
  unfold writes at h
  split at h
  · rename_i gap w spaces hvalue htail
    have htext : w.text = word := beq_iff_eq.mp h
    dsimp only at hvalue
    rw [scalar, hvalue, Option.bind_some, Value.scalar, htext]
    exact congrArg some ((List.map_congr_left fun c hc =>
      toLower_of_isWordChar (hword c hc)).trans (List.map_id _))
  · exact absurd h Bool.false_ne_true

section Split

theorem isBreak_of_staysPlain {text : List Char} {afterBlank : Bool}
    (h : staysPlain afterBlank text) : ∀ c ∈ text, isBreak c = false := by
  induction text generalizing afterBlank with
  | nil => exact List.forall_mem_nil _
  | cons c rest ih =>
      simp only [staysPlain, Bool.and_eq_true, Bool.not_eq_true'] at h
      exact List.forall_mem_cons.mpr ⟨h.1.1.1, ih h.2⟩

theorem lineFeed_notMem_of_all {text : List Char} {p : Char → Bool}
    (hp : p (Char.ofNat 10) = false) (h : text.all p) : Char.ofNat 10 ∉ text := fun hmem =>
  Bool.false_ne_true (hp.symm.trans (List.all_eq_true.mp h _ hmem))

theorem Quoted.lineFeed_notMem (q : Quoted) : Char.ofNat 10 ∉ q.written := by
  obtain ⟨quote, text, hallowed⟩ := q
  have htext := lineFeed_notMem_of_all (p := quote.allows) (by cases quote <;> decide) hallowed
  have hquote : Char.ofNat 10 ≠ quote.char := by cases quote <;> decide
  simp [written, htext, hquote]

theorem Plain.lineFeed_notMem (w : Plain) : Char.ofNat 10 ∉ w.text := fun hmem =>
  absurd (isBreak_of_staysPlain w.stays _ hmem) (by decide)

theorem Key.lineFeed_notMem (key : Key) : Char.ofNat 10 ∉ key.written := by
  cases key with
  | plain w _ => exact w.lineFeed_notMem
  | quoted q => exact q.lineFeed_notMem

theorem Value.lineFeed_notMem (value : Value) : Char.ofNat 10 ∉ value.written := by
  cases value with
  | plain w => exact w.lineFeed_notMem
  | quoted q => exact q.lineFeed_notMem
  | sequence items hitems =>
      have h := lineFeed_notMem_of_all (by decide) hitems
      simp [written, h]

theorem Tail.lineFeed_notMem (tail : Tail) : Char.ofNat 10 ∉ tail.written := by
  cases tail with
  | blanks spaces => exact lineFeed_notMem_of_all (by decide) spaces.property
  | comment gap comment =>
      have hgap := lineFeed_notMem_of_all (by decide) gap.property.2
      have hcomment := lineFeed_notMem_of_all (by decide) comment.property
      simp [written, hgap, hcomment]

theorem Entry.lineFeed_notMem_valueText (e : Entry) : Char.ofNat 10 ∉ e.valueText := by
  unfold valueText
  cases e.value with
  | none => exact List.not_mem_nil
  | some v =>
      have hgap := lineFeed_notMem_of_all (by decide) v.1.property.2
      simp [hgap, v.2.lineFeed_notMem]

theorem Line.lineFeed_notMem (line : Line) : Char.ofNat 10 ∉ line.written := by
  have hending : Char.ofNat 10 ∉ line.ending := by
    unfold ending
    split <;> decide
  refine List.mem_append.not.mpr (not_or.mpr ⟨?_, hending⟩)
  cases line.content with
  | blank spaces => exact lineFeed_notMem_of_all (by decide) spaces.property
  | comment indent comment =>
      have hindent := lineFeed_notMem_of_all (by decide) indent.property
      have hcomment := lineFeed_notMem_of_all (by decide) comment.property
      simp [Content.written, hindent, hcomment]
  | entry e =>
      have hbefore := lineFeed_notMem_of_all (by decide) e.beforeColon.property
      simp [Content.written, Entry.beforeText, hbefore, e.key.lineFeed_notMem,
        e.lineFeed_notMem_valueText, e.tail.lineFeed_notMem]

/-- The lines of a text are those that it was made of. -/
theorem splitOn_text {lines : List Line} (hne : lines ≠ []) :
    (text lines).splitOn (Char.ofNat 10) = lines.map Line.written := by
  refine List.splitOn_intercalate _ (fun l hl => ?_) (by simpa using hne)
  obtain ⟨line, -, rfl⟩ := List.mem_map.mp hl
  exact line.lineFeed_notMem

end Split

section Keys

variable {key : List Char} {lines : List Line} {e : Entry}

theorem lastPlain_of_lastEntry (h : lastEntry key lines = some e) (hplain : e.key.isPlain) :
    lastPlain key lines = some e := by
  obtain ⟨before, hbefore⟩ := List.getLast?_eq_some_iff.mp h
  have hfilter : (lines.filterMap Line.entry?).filter (fun e => e.key.isPlain ∧ e.key.name = key) =
      ((lines.filterMap Line.entry?).filter fun e => e.key.name = key).filter
        fun e => e.key.isPlain := by
    rw [List.filter_filter]
    exact List.filter_congr fun e _ => by rw [Bool.decide_and, Bool.decide_eq_true]
  rw [lastPlain, hfilter, hbefore, List.filter_append, List.filter_singleton, hplain]
  exact List.getLast?_concat ..

theorem lastPlain_of_none (h : lastEntry key lines = none) : lastPlain key lines = none := by
  rw [lastEntry, List.getLast?_eq_none_iff, List.filter_eq_nil_iff] at h
  rw [lastPlain, List.getLast?_eq_none_iff, List.filter_eq_nil_iff]
  exact fun e he hboth => h e he (decide_eq_true (of_decide_eq_true hboth).2)

theorem Key.strip_written {w : Plain} {colonFree : ':' ∉ w.text} (indent : Nat) (spaces : Blanks) :
    strip isSpace (List.replicate indent ' ' ++ (Key.plain w colonFree).written ++ spaces.val) =
      w.text := by
  rw [List.append_assoc]
  exact w.strip_eq (fun c hc => (List.eq_of_mem_replicate hc) ▸ rfl) (isSpace_of_blanks spaces)

end Keys

end Written

end QuantForge.Library.YamlLine
