import Mathlib.Algebra.Order.BigOperators.Group.List
import Mathlib.Data.List.Nodup
import Mathlib.Data.List.Perm.Subperm
import Mathlib.Data.List.TakeWhile
import QuantForge.Library.Json

/-! The texts of JSON values. A text is read from its left end: `Text part s r` says that `s` begins
with a text of the part and that `r` is what follows it. Blanks are skipped where the grammar
allows them, since no token begins with one, and a number is the longest run of the characters
that numbers have, since none of them may follow a number. -/
namespace QuantForge.Library.Json

def isBlank (c : Char) : Bool := c == ' ' || c == '\t' || c == '\n' || c == '\r'

def skip (s : List Char) : List Char := s.dropWhile isBlank

def isNumberChar (c : Char) : Bool :=
  c.isDigit || c == '-' || c == '+' || c == '.' || c == 'e' || c == 'E'

def isPlain (c : Char) : Bool := decide (' ' ≤ c) && c != '"' && c != '\\'

def shortEscape : Char → Option Char
  | '"' => some '"'
  | '\\' => some '\\'
  | '/' => some '/'
  | 'b' => some (Char.ofNat 8)
  | 'f' => some (Char.ofNat 12)
  | 'n' => some '\n'
  | 'r' => some '\r'
  | 't' => some '\t'
  | _ => none

def hexDigit (c : Char) : Option Nat :=
  if c.isDigit then some (c.toNat - '0'.toNat)
  else if 'a' ≤ c ∧ c ≤ 'f' then some (c.toNat - 'a'.toNat + 10)
  else if 'A' ≤ c ∧ c ≤ 'F' then some (c.toNat - 'A'.toNat + 10)
  else none

def codeUnit (a b c d : Char) : Option Nat := do
  return (((← hexDigit a) * 16 + (← hexDigit b)) * 16 + (← hexDigit c)) * 16 + (← hexDigit d)

/-- A string goes on with the character. One half of a surrogate pair is no character. -/
inductive CharText : List Char → Char → List Char → Prop where
  | plain {c r} (h : isPlain c) : CharText (c :: r) c r
  | short {mark c r} (h : shortEscape mark = some c) : CharText ('\\' :: mark :: r) c r
  | unit {a b c d n r} (h : codeUnit a b c d = some n) (hscalar : n < 0xD800 ∨ 0xE000 ≤ n) :
      CharText ('\\' :: 'u' :: a :: b :: c :: d :: r) (Char.ofNat n) r
  | pair {a b c d a' b' c' d' high low r} (h : codeUnit a b c d = some high)
      (h' : codeUnit a' b' c' d' = some low) (hhigh : 0xD800 ≤ high ∧ high < 0xDC00)
      (hlow : 0xDC00 ≤ low ∧ low < 0xE000) :
      CharText ('\\' :: 'u' :: a :: b :: c :: d :: '\\' :: 'u' :: a' :: b' :: c' :: d' :: r)
        (Char.ofNat (0x10000 + (high - 0xD800) * 0x400 + (low - 0xDC00))) r

/-- The characters of a string, up to and with its closing quote. -/
inductive Chars : List Char → List Char → List Char → Prop where
  | done {r} : Chars ('"' :: r) [] r
  | more {s c u v r} (hc : CharText s c u) (hv : Chars u v r) : Chars s (c :: v) r

def readExponent (t : List Char) : Option Int :=
  let digits := match t with
    | '+' :: t | '-' :: t => t
    | t => t
  if digits ≠ [] ∧ digits.all Char.isDigit then
    some (if t.head? = some '-' then -Nat.ofDigitChars 10 digits 0
      else Nat.ofDigitChars 10 digits 0)
  else none

def readNumber (t : List Char) : Option ℚ :=
  let unsigned := match t with
    | '-' :: t => t
    | t => t
  let whole := unsigned.takeWhile Char.isDigit
  let fraction := match unsigned.dropWhile Char.isDigit with
    | '.' :: t => some (t.takeWhile Char.isDigit)
    | _ => none
  let rest := match unsigned.dropWhile Char.isDigit with
    | '.' :: t => t.dropWhile Char.isDigit
    | t => t
  let exponent := match rest with
    | [] => some 0
    | 'e' :: t | 'E' :: t => readExponent t
    | _ => none
  if whole ≠ [] ∧ (whole.head? = some '0' → whole = ['0']) ∧ fraction ≠ some [] then
    exponent.map fun e =>
      (if t.head? = some '-' then -1 else 1) *
        (Nat.ofDigitChars 10 (whole ++ fraction.getD []) 0 : ℚ) /
          10 ^ (fraction.getD []).length * 10 ^ e
  else none

inductive Element where
  | value
  | member

@[reducible] def Element.Part : Element → Type
  | .value => Json
  | .member => List Char × Json

def Element.close : Element → Char
  | .value => ']'
  | .member => '}'

/-- A text is of one element, or of what follows the opening bracket of an array or of an object,
or a comma in it, up to and with its closing bracket. -/
inductive Kind where
  | one (e : Element)
  | body (e : Element)
  | rest (e : Element)

@[reducible] def Kind.Part : Kind → Type
  | .one e => e.Part
  | .body e | .rest e => List e.Part

inductive Text : (k : Kind) → k.Part → List Char → List Char → Prop where
  | null {r} : Text (.one .value) .null ('n' :: 'u' :: 'l' :: 'l' :: r) r
  | true {r} : Text (.one .value) (.bool true) ('t' :: 'r' :: 'u' :: 'e' :: r) r
  | false {r} : Text (.one .value) (.bool false) ('f' :: 'a' :: 'l' :: 's' :: 'e' :: r) r
  | number {s q} (h : readNumber (s.takeWhile isNumberChar) = some q) :
      Text (.one .value) (.number q) s (s.dropWhile isNumberChar)
  | string {s v r} (h : Chars s v r) : Text (.one .value) (.string v) ('"' :: s) r
  | array {js s r} (h : Text (.body .value) js s r) : Text (.one .value) (.array js) ('[' :: s) r
  | object {ms s r} (h : Text (.body .member) ms s r) :
      Text (.one .value) (.object ms) ('{' :: s) r
  | member {key j s u v r} (hkey : Chars s key u) (hu : skip u = ':' :: v)
      (h : Text (.one .value) j (skip v) r) : Text (.one .member) (key, j) ('"' :: s) r
  | empty {e s r} (h : skip s = e.close :: r) : Text (.body e) [] s r
  | full {e ps s r} (h : Text (.rest e) ps s r) : Text (.body e) ps s r
  | last {e p s u r} (h : Text (.one e) p (skip s) u) (hu : skip u = e.close :: r) :
      Text (.rest e) [p] s r
  | next {e p ps s u v r} (h : Text (.one e) p (skip s) u) (hu : skip u = ',' :: v)
      (hrest : Text (.rest e) ps v r) : Text (.rest e) (p :: ps) s r

def Document (j : Json) (s : List Char) : Prop := ∃ r, Text (.one .value) j (skip s) r ∧ skip r = []

theorem CharText.unique {s r r' : List Char} {c c' : Char} (h : CharText s c r)
    (h' : CharText s c' r') : c = c' ∧ r = r' := by
  cases h with
  | plain hp =>
      cases h' with
      | plain _ => exact ⟨rfl, rfl⟩
      | short _ | unit _ _ | pair _ _ _ _ => cases hp
  | short hm =>
      cases h' with
      | plain hp => cases hp
      | short hm' =>
          rw [hm] at hm'
          exact ⟨Option.some.inj hm', rfl⟩
      | unit _ _ | pair _ _ _ _ => cases hm
  | unit hn hscalar =>
      cases h' with
      | plain hp => cases hp
      | short hm => cases hm
      | unit hn' _ =>
          rw [hn] at hn'
          obtain rfl := Option.some.inj hn'
          exact ⟨rfl, rfl⟩
      | pair hn' _ hhigh _ =>
          rw [hn] at hn'
          obtain rfl := Option.some.inj hn'
          omega
  | pair hn hm hhigh _ =>
      cases h' with
      | plain hp => cases hp
      | short hm => cases hm
      | unit hn' hscalar =>
          rw [hn] at hn'
          obtain rfl := Option.some.inj hn'
          omega
      | pair hn' hm' _ _ =>
          rw [hn] at hn'
          rw [hm] at hm'
          obtain rfl := Option.some.inj hn'
          obtain rfl := Option.some.inj hm'
          exact ⟨rfl, rfl⟩

theorem not_charText_quote {s r : List Char} {c : Char} : ¬CharText ('"' :: s) c r := by
  intro h
  cases h with
  | plain hp => cases hp

theorem Chars.unique {s v v' r r' : List Char} (h : Chars s v r) (h' : Chars s v' r') :
    v = v' ∧ r = r' := by
  induction h generalizing v' with
  | done =>
      cases h' with
      | done => exact ⟨rfl, rfl⟩
      | more hc _ => exact absurd hc not_charText_quote
  | more hc hv ih =>
      cases h' with
      | done => exact absurd hc not_charText_quote
      | more hc' hv' =>
          obtain ⟨rfl, rfl⟩ := hc.unique hc'
          obtain ⟨rfl, rfl⟩ := ih hv'
          exact ⟨rfl, rfl⟩

theorem readNumber_cons_ne {c : Char} {s : List Char} {q : ℚ} (hc : isNumberChar c = false) :
    readNumber ((c :: s).takeWhile isNumberChar) ≠ some q := by
  rw [List.takeWhile_cons_of_neg (by simp [hc])]
  exact nofun

theorem Element.close_ne_comma {e : Element} {s u : List Char} : e.close :: s ≠ ',' :: u := by
  cases e <;> exact nofun

theorem Text.ne_close {e : Element} {p : e.Part} {s r u : List Char} (h : Text (.one e) p s r) :
    s ≠ e.close :: u := by
  cases h with
  | number h =>
      rintro rfl
      exact readNumber_cons_ne rfl h
  | _ => exact nofun

theorem Text.not_closed {e : Element} {ps : List e.Part} {s r u : List Char}
    (h : Text (.rest e) ps s r) : skip s ≠ e.close :: u := by
  cases h with
  | last h _ | next h _ _ => exact h.ne_close

/-- The grammar is unambiguous: what a text begins with is one part of a kind. -/
theorem Text.unique {k : Kind} {p p' : k.Part} {s r r' : List Char} (h : Text k p s r)
    (h' : Text k p' s r') : p = p' ∧ r = r' := by
  induction h generalizing r' with
  | null =>
      cases h' with
      | null => exact ⟨rfl, rfl⟩
      | number h => exact absurd h (readNumber_cons_ne rfl)
  | true =>
      cases h' with
      | true => exact ⟨rfl, rfl⟩
      | number h => exact absurd h (readNumber_cons_ne rfl)
  | false =>
      cases h' with
      | false => exact ⟨rfl, rfl⟩
      | number h => exact absurd h (readNumber_cons_ne rfl)
  | number hq =>
      cases h' with
      | number hq' =>
          rw [hq] at hq'
          obtain rfl := Option.some.inj hq'
          exact ⟨rfl, rfl⟩
      | null | true | false | string | array | object =>
          exact absurd hq (readNumber_cons_ne rfl)
  | string hv =>
      cases h' with
      | string hv' =>
          obtain ⟨rfl, rfl⟩ := hv.unique hv'
          exact ⟨rfl, rfl⟩
      | number h => exact absurd h (readNumber_cons_ne rfl)
  | array h ih =>
      cases h' with
      | array h' =>
          obtain ⟨rfl, rfl⟩ := ih h'
          exact ⟨rfl, rfl⟩
      | number h => exact absurd h (readNumber_cons_ne rfl)
  | object h ih =>
      cases h' with
      | object h' =>
          obtain ⟨rfl, rfl⟩ := ih h'
          exact ⟨rfl, rfl⟩
      | number h => exact absurd h (readNumber_cons_ne rfl)
  | empty hs =>
      cases h' with
      | empty hs' =>
          rw [hs] at hs'
          exact ⟨rfl, (List.cons.inj hs').2⟩
      | full h' => exact absurd hs h'.not_closed
  | full h ih =>
      cases h' with
      | empty hs => exact absurd hs h.not_closed
      | full h' => exact ih h'
  | member hkey hu h ih =>
      cases h' with
      | member hkey' hu' h' =>
          obtain ⟨rfl, rfl⟩ := hkey.unique hkey'
          rw [hu] at hu'
          obtain rfl := (List.cons.inj hu').2
          obtain ⟨rfl, rfl⟩ := ih h'
          exact ⟨rfl, rfl⟩
  | last h hu ih =>
      cases h' with
      | last h' hu' =>
          obtain ⟨rfl, rfl⟩ := ih h'
          rw [hu] at hu'
          exact ⟨rfl, (List.cons.inj hu').2⟩
      | next h' hu' _ =>
          obtain ⟨-, rfl⟩ := ih h'
          exact absurd (hu.symm.trans hu') Element.close_ne_comma
  | next h hu hrest ih ihrest =>
      cases h' with
      | last h' hu' =>
          obtain ⟨-, rfl⟩ := ih h'
          exact absurd (hu'.symm.trans hu) Element.close_ne_comma
      | next h' hu' hrest' =>
          obtain ⟨rfl, rfl⟩ := ih h'
          rw [hu] at hu'
          obtain rfl := (List.cons.inj hu').2
          obtain ⟨rfl, rfl⟩ := ihrest hrest'
          exact ⟨rfl, rfl⟩

theorem Document.unique {j j' : Json} {s : List Char} (h : Document j s) (h' : Document j' s) :
    j = j' := by
  obtain ⟨r, htext, -⟩ := h
  obtain ⟨r', htext', -⟩ := h'
  exact (htext.unique htext').1

/-- How a decoder answers for a name of an object: with a value that the name is given, and with
the only one when no name is given twice. -/
structure Decoder where
  pick : List (List Char × Json) → List Char → Option Json
  mem : ∀ {ms key j}, pick ms key = some j → (key, j) ∈ ms
  only : ∀ {ms key j}, (ms.map Prod.fst).Nodup → (key, j) ∈ ms → pick ms key = some j

def Decoder.first : Decoder where
  pick ms key := ms.lookup key
  mem h := by
    obtain ⟨l₁, l₂, rfl, -⟩ := List.lookup_eq_some_iff.mp h
    exact List.mem_append_right _ List.mem_cons_self
  only := by
    intro ms key j hnames hmem
    induction ms with
    | nil => exact absurd hmem List.not_mem_nil
    | cons m ms ih =>
        rw [List.map_cons, List.nodup_cons] at hnames
        rcases List.mem_cons.mp hmem with rfl | hmem
        · exact List.lookup_cons_self
        · have hne : (key == m.1) = false := by
            refine beq_eq_false_iff_ne.mpr ?_
            rintro rfl
            exact hnames.1 (List.mem_map.mpr ⟨_, hmem, rfl⟩)
          rw [List.lookup_cons, hne]
          exact ih hnames.2 hmem

section Weight

def weight (s : List Char) : Nat := s.countP fun c => !isNumberChar c

def escapes (v : List Char) : Nat := v.countP fun c => !isPlain c

def stringCost (v : List Char) : Nat := weight v + escapes v + 2

def cost : Json → Nat
  | .string v => stringCost v
  | _ => 0

def Element.cost : (e : Element) → e.Part → Nat
  | .value, j => j.cost
  | .member, (key, j) => stringCost key + 1 + j.cost

def Kind.cost : (k : Kind) → k.Part → Nat
  | .one e, p => e.cost p
  | .body e, ps | .rest e, ps => (ps.map fun p => e.cost p + 1).sum

theorem weight_append (s u : List Char) : weight (s ++ u) = weight s + weight u :=
  List.countP_append

theorem escapes_append (v w : List Char) : escapes (v ++ w) = escapes v + escapes w :=
  List.countP_append

theorem weight_cons_of_not {c : Char} (h : isNumberChar c = false) (s : List Char) :
    weight (c :: s) = weight s + 1 :=
  List.countP_cons_of_pos (by simp [h])

theorem weight_le_append (u s : List Char) : weight s ≤ weight (u ++ s) := by
  rw [weight_append]
  exact Nat.le_add_left _ _

theorem weight_dropWhile_le (p : Char → Bool) (s : List Char) :
    weight (s.dropWhile p) ≤ weight s :=
  (List.dropWhile_sublist p).countP_le

private theorem weight_skip {c : Char} {s u : List Char} (h : skip s = c :: u)
    (hc : isNumberChar c = false) : weight u + 1 ≤ weight s := by
  rw [← weight_cons_of_not hc, ← h]
  exact weight_dropWhile_le _ _

theorem Element.not_isNumberChar_close (e : Element) : isNumberChar e.close = false := by
  cases e <;> rfl

private theorem weight_shortEscape {mark c : Char} (h : shortEscape mark = some c) :
    isNumberChar mark = false := by
  unfold shortEscape at h
  split at h <;> first | rfl | cases h

private theorem weight_escape {mark : Char} (h : isNumberChar mark = false) (s : List Char) :
    weight ('\\' :: mark :: s) = weight s + 2 := by
  rw [weight_cons_of_not rfl, weight_cons_of_not h]

theorem CharText.weight_le {s r : List Char} {c : Char} (h : CharText s c r) :
    weight r + weight [c] + escapes [c] ≤ weight s := by
  have hone : weight [c] ≤ 1 := List.countP_le_length
  have hescape : escapes [c] ≤ 1 := List.countP_le_length
  cases h with
  | plain hp =>
      have hplain : escapes [c] = 0 := by simp [escapes, hp]
      have hsplit : weight (c :: r) = weight [c] + weight r := weight_append [c] r
      omega
  | short hm =>
      rw [weight_escape (weight_shortEscape hm)]
      omega
  | @unit a b c d _ _ _ _ =>
      have hdigits := weight_le_append [a, b, c, d] r
      rw [weight_escape rfl]
      exact (Nat.add_le_add_right hdigits 2).trans' (by omega)
  | @pair a b c d a' b' c' d' _ _ _ _ _ _ _ =>
      have hdigits := weight_le_append [a, b, c, d, '\\', 'u', a', b', c', d'] r
      rw [weight_escape rfl]
      exact (Nat.add_le_add_right hdigits 2).trans' (by omega)

theorem Chars.weight_le {s v r : List Char} (h : Chars s v r) :
    weight r + weight v + escapes v + 1 ≤ weight s := by
  induction h with
  | done =>
      rw [weight_cons_of_not rfl]
      exact le_rfl
  | @more _ c _ v _ hc _ ih =>
      have hfirst := hc.weight_le
      have hweight : weight (c :: v) = weight [c] + weight v := weight_append [c] v
      have hescapes : escapes (c :: v) = escapes [c] + escapes v := escapes_append [c] v
      omega

theorem Text.weight_le {k : Kind} {p : k.Part} {s r : List Char} (h : Text k p s r) :
    weight r + k.cost p ≤ weight s := by
  induction h with
  | null => exact weight_le_append ['n', 'u', 'l', 'l'] _
  | true => exact weight_le_append ['t', 'r', 'u', 'e'] _
  | false => exact weight_le_append ['f', 'a', 'l', 's', 'e'] _
  | number _ => exact weight_dropWhile_le _ _
  | string hv =>
      have hchars := hv.weight_le
      rw [weight_cons_of_not rfl]
      change weight _ + stringCost _ ≤ _
      unfold stringCost
      omega
  | array _ ih | object _ ih =>
      rw [weight_cons_of_not rfl]
      exact (Nat.le_add_right _ _).trans (ih.trans (Nat.le_add_right _ 1))
  | member hkey hu _ ih =>
      have hchars := hkey.weight_le
      have hcolon := weight_skip hu rfl
      have hvalue := ih.trans (weight_dropWhile_le _ _)
      rw [weight_cons_of_not rfl]
      change weight _ + (stringCost _ + 1 + _) ≤ _
      change weight _ + cost _ ≤ _ at hvalue
      unfold stringCost
      omega
  | @empty e _ _ hs => exact Nat.le_of_succ_le (weight_skip hs e.not_isNumberChar_close)
  | full _ ih => exact ih
  | @last e _ _ _ _ _ hu ih =>
      have hclose := weight_skip hu e.not_isNumberChar_close
      have hfirst := ih.trans (weight_dropWhile_le _ _)
      change weight _ + e.cost _ ≤ _ at hfirst
      change weight _ + (e.cost _ + 1 + 0) ≤ _
      omega
  | @next e _ _ _ _ _ _ _ hu _ ih ihrest =>
      have hcomma := weight_skip hu rfl
      have hfirst := ih.trans (weight_dropWhile_le _ _)
      change weight _ + e.cost _ ≤ _ at hfirst
      rw [Kind.cost, List.map_cons, List.sum_cons]
      change weight _ + List.sum _ ≤ _ at ihrest
      omega

theorem Document.weight_le {ms picked : List (List Char × Json)} {s : List Char}
    (h : Document (.object ms) s) (hnames : (picked.map Prod.fst).Nodup)
    (hmem : ∀ m ∈ picked, m ∈ ms) :
    (picked.map fun m => Element.member.cost m + 1).sum + 1 ≤ weight s := by
  obtain ⟨r, htext, -⟩ := h
  have hall : (ms.map fun m => Element.member.cost m + 1).sum + 1 ≤ weight (skip s) := by
    generalize skip s = u at htext
    cases htext with
    | object hbody =>
        have hle := hbody.weight_le
        rw [weight_cons_of_not rfl]
        exact Nat.succ_le_succ ((Nat.le_add_left _ _).trans hle)
  obtain ⟨sub, hperm, hsub⟩ := List.subperm_of_subset (List.Nodup.of_map _ hnames) hmem
  have hpicked := (hperm.map fun m => Element.member.cost m + 1).sum_eq
  have hsum := (hsub.map fun m => Element.member.cost m + 1).sum_le_sum fun _ _ => Nat.zero_le _
  exact (Nat.succ_le_succ (hpicked ▸ hsum)).trans (hall.trans (weight_dropWhile_le _ _))

end Weight

section Plain

theorem chars_of_plain {v : List Char} (h : ∀ c ∈ v, isPlain c) (r : List Char) :
    Chars (v ++ '"' :: r) v r := by
  induction v with
  | nil => exact .done
  | cons c v ih =>
      have hrest := ih fun c' hc' => h c' (List.mem_cons_of_mem _ hc')
      exact .more (.plain (h c List.mem_cons_self)) hrest

theorem text_of_plain {v : List Char} (h : ∀ c ∈ v, isPlain c) (r : List Char) :
    Text (.one .value) (.string v) ('"' :: (v ++ '"' :: r)) r :=
  .string (chars_of_plain h r)

private theorem toDigits_of_head {n : Nat} (h : (Nat.toDigits 10 n).head? = some '0') :
    n = 0 := by
  induction n using Nat.strongRecOn with
  | ind n ih =>
      rw [Nat.toDigits_eq_if (by decide)] at h
      split at h
      · exact Nat.digitChar_eq_zero.mp (Option.some.inj h)
      · rename_i hten
        rw [List.head?_append_of_ne_nil _ Nat.toDigits_ne_nil] at h
        have hdiv := ih (n / 10) (by omega) h
        omega

theorem readNumber_toDigits (n : Nat) : readNumber (Nat.toDigits 10 n) = some (n : ℚ) := by
  have hdigit : ∀ c ∈ Nat.toDigits 10 n, c.isDigit = true := fun c hc =>
    Nat.isDigit_of_mem_toDigits (by decide) (by decide) hc
  have hzero := @toDigits_of_head n
  have hread := @Nat.ofDigitChars_ten_toDigits n
  have hne := @Nat.toDigits_ne_nil n 10
  cases hdigits : Nat.toDigits 10 n with
  | nil => exact absurd hdigits hne
  | cons c rest =>
      rw [hdigits] at hdigit hzero hread
      have hsign : c ≠ '-' := by
        rintro rfl
        exact absurd (hdigit '-' List.mem_cons_self) (by decide)
      have hunsigned : (match c :: rest with
          | '-' :: t => t
          | t => t) = c :: rest := by
        split
        · rename_i heq
          exact absurd (List.cons.inj heq).1 hsign
        · rfl
      have htake : (c :: rest).takeWhile Char.isDigit = c :: rest :=
        List.takeWhile_eq_self_iff.mpr hdigit
      have hdrop : (c :: rest).dropWhile Char.isDigit = [] := List.dropWhile_eq_nil_iff.mpr hdigit
      have hlead : (c :: rest).head? = some '0' → c :: rest = ['0'] := by
        intro hhead
        rw [← hdigits, hzero hhead]
        rfl
      unfold readNumber
      dsimp only
      rw [hunsigned, htake, hdrop]
      dsimp only
      rw [if_pos ⟨List.cons_ne_nil _ _, hlead, nofun⟩, if_neg (by simpa using hsign)]
      simp [hread]

structure WholeDigits (whole : List Char) : Prop where
  ne_nil : whole ≠ []
  digits : ∀ c ∈ whole, c.isDigit = true
  leading : whole.head? = some '0' → whole = ['0']

theorem WholeDigits.head_ne_minus {whole : List Char} (h : WholeDigits whole) (rest : List Char) :
    (whole ++ rest).head? ≠ some '-' := by
  cases whole with
  | nil => exact absurd rfl h.ne_nil
  | cons c whole =>
      intro heq
      obtain rfl := Option.some.inj heq
      exact absurd (h.digits '-' List.mem_cons_self) (by decide)

theorem wholeDigits_take {n : Nat} (hn : 0 < n) (k : Nat) :
    WholeDigits ((Nat.toDigits 10 n).take (k + 1)) where
  ne_nil h := by simpa [Nat.toDigits_ne_nil] using List.take_eq_nil_iff.mp h
  digits c hc := Nat.isDigit_of_mem_toDigits (by decide) (by decide) (List.mem_of_mem_take hc)
  leading h := by
    rw [List.head?_take, if_neg k.succ_ne_zero] at h
    exact absurd (toDigits_of_head h) hn.ne'

inductive ExponentPart : List Char → Int → Prop where
  | absent : ExponentPart [] 0
  | power {t : List Char} {e : Int} (h : readExponent t = some e) : ExponentPart ('e' :: t) e

theorem ExponentPart.head {tail : List Char} {e : Int} (h : ExponentPart tail e) :
    ∀ c ∈ tail.head?, c.isDigit = false := by
  cases h with
  | absent => simp
  | power h => simp

theorem takeWhile_isDigit {digits rest : List Char} (hdigits : ∀ c ∈ digits, c.isDigit = true)
    (hrest : ∀ c ∈ rest.head?, c.isDigit = false) :
    (digits ++ rest).takeWhile Char.isDigit = digits ∧
      (digits ++ rest).dropWhile Char.isDigit = rest := by
  rw [List.takeWhile_append_of_pos hdigits, List.dropWhile_append_of_pos hdigits]
  cases rest with
  | nil => simp
  | cons c rest =>
      have hc : ¬c.isDigit = true := by simpa using hrest c rfl
      rw [List.takeWhile_cons_of_neg hc, List.dropWhile_cons_of_neg hc, List.append_nil]
      exact ⟨rfl, rfl⟩

private theorem unsigned_of_head (t : List Char) :
    t.head? ≠ some '-' → (match t with
      | '-' :: t => t
      | t => t) = t := by
  intro h
  split
  · exact absurd rfl h
  · rfl

theorem readNumber_minus {t : List Char} (h : t.head? ≠ some '-') :
    readNumber ('-' :: t) = (readNumber t).map Neg.neg := by
  have hsigned : (match '-' :: t with
      | '-' :: t => t
      | t => t) = t := rfl
  unfold readNumber
  dsimp only
  rw [unsigned_of_head t h, hsigned, if_neg h, apply_ite (Option.map Neg.neg), Option.map_map]
  congr 1
  congr 1
  funext e
  rw [List.head?_cons, if_pos rfl, Function.comp_apply, one_mul, neg_mul, one_mul, neg_div,
    neg_mul]

theorem readNumber_whole {whole tail : List Char} {e : Int} (hwhole : WholeDigits whole)
    (htail : ExponentPart tail e) :
    readNumber (whole ++ tail) = some ((Nat.ofDigitChars 10 whole 0 : ℚ) * 10 ^ e) := by
  have hminus := hwhole.head_ne_minus tail
  obtain ⟨htake, hdrop⟩ := takeWhile_isDigit hwhole.digits htail.head
  unfold readNumber
  dsimp only
  rw [unsigned_of_head _ hminus, if_neg hminus, htake, hdrop]
  cases htail with
  | absent =>
      rw [if_pos ⟨hwhole.ne_nil, hwhole.leading, nofun⟩]
      simp
  | power hread =>
      rw [if_pos ⟨hwhole.ne_nil, hwhole.leading, nofun⟩]
      simp [hread]

theorem readNumber_fraction {whole fraction tail : List Char} {e : Int}
    (hwhole : WholeDigits whole) (hne : fraction ≠ [])
    (hfraction : ∀ c ∈ fraction, c.isDigit = true) (htail : ExponentPart tail e) :
    readNumber (whole ++ '.' :: (fraction ++ tail)) =
      some ((Nat.ofDigitChars 10 (whole ++ fraction) 0 : ℚ) / 10 ^ fraction.length * 10 ^ e) := by
  have hminus := hwhole.head_ne_minus ('.' :: (fraction ++ tail))
  have hpoint : ∀ c ∈ ('.' :: (fraction ++ tail)).head?, c.isDigit = false := by simp
  obtain ⟨htake, hdrop⟩ := takeWhile_isDigit hwhole.digits hpoint
  obtain ⟨htake', hdrop'⟩ := takeWhile_isDigit hfraction htail.head
  unfold readNumber
  dsimp only
  rw [unsigned_of_head _ hminus, if_neg hminus, htake, hdrop]
  simp only [htake', hdrop']
  rw [if_pos ⟨hwhole.ne_nil, hwhole.leading, fun h => hne (Option.some.inj h)⟩]
  cases htail with
  | absent => simp
  | power hread => simp [hread]

theorem skip_toDigits (n : Nat) (r : List Char) :
    skip (Nat.toDigits 10 n ++ r) = Nat.toDigits 10 n ++ r := by
  cases hdigits : Nat.toDigits 10 n with
  | nil => exact absurd hdigits Nat.toDigits_ne_nil
  | cons d rest =>
      have hd : d.isDigit = true :=
        Nat.isDigit_of_mem_toDigits (by decide) (by decide) (hdigits ▸ List.mem_cons_self)
      have hblank : isBlank d = false := by
        unfold isBlank
        simp only [Bool.or_eq_false_iff, beq_eq_false_iff_ne]
        refine ⟨⟨⟨?_, ?_⟩, ?_⟩, ?_⟩ <;> rintro rfl <;> exact absurd hd (by decide)
      exact List.dropWhile_cons_of_neg (by simp [hblank])

theorem text_of_digits (n : Nat) {c : Char} (hc : isNumberChar c = false) (r : List Char) :
    Text (.one .value) (.number n) (Nat.toDigits 10 n ++ c :: r) (c :: r) := by
  have hdigit : ∀ d ∈ Nat.toDigits 10 n, isNumberChar d = true := by
    intro d hd
    have := Nat.isDigit_of_mem_toDigits (by decide) (by decide) hd
    simp [isNumberChar, this]
  have htake : (Nat.toDigits 10 n ++ c :: r).takeWhile isNumberChar = Nat.toDigits 10 n := by
    rw [List.takeWhile_append_of_pos hdigit, List.takeWhile_cons_of_neg (by simp [hc]),
      List.append_nil]
  have hdrop : (Nat.toDigits 10 n ++ c :: r).dropWhile isNumberChar = c :: r := by
    rw [List.dropWhile_append_of_pos hdigit, List.dropWhile_cons_of_neg (by simp [hc])]
  have htext := Text.number (s := Nat.toDigits 10 n ++ c :: r) (q := n) (by
    rw [htake, readNumber_toDigits])
  rwa [hdrop] at htext

theorem member_of_plain {key u r : List Char} {j : Json} (hkey : key.all isPlain)
    (h : Text (.one .value) j (skip u) r) :
    Text (.one .member) (key, j) ('"' :: (key ++ '"' :: ':' :: u)) r :=
  .member (chars_of_plain (List.all_eq_true.mp hkey) _) rfl h

theorem stringMember_of_plain {key v : List Char} (hkey : key.all isPlain)
    (hv : ∀ c ∈ v, isPlain c) (r : List Char) :
    Text (.one .member) (key, .string v) ('"' :: (key ++ '"' :: ':' :: '"' :: (v ++ '"' :: r))) r :=
  member_of_plain hkey (text_of_plain hv r)

theorem numberMember_of_plain {key : List Char} (hkey : key.all isPlain) (n : Nat) {c : Char}
    (hc : isNumberChar c = false) (r : List Char) :
    Text (.one .member) (key, .number n)
      ('"' :: (key ++ '"' :: ':' :: (Nat.toDigits 10 n ++ c :: r))) (c :: r) := by
  refine member_of_plain hkey ?_
  rw [skip_toDigits]
  exact text_of_digits n hc r

end Plain

end QuantForge.Library.Json
