/-
String literals and what they mean.

The text between the quotes of a string literal is a sequence of pieces: characters other than the
quote and the backslash, and pairs of a backslash and a character.  What a literal means is a
sequence of code units.  An escape may take in characters behind its pair, as in `\x41` or
`\u0041`, but neither a quote nor a backslash is ever among them.  So other quotes change no escape,
and piece by piece they change no meaning.

* `StringLiteral`: the literals, each with its quote and its pieces; `StringLiteral.raw` is the
  text.
* `Scan.exists_stringLiteral`: what is read as a string is a literal.
* `stringValue?`: the code units that a literal stands for.
* `StringLiteral.requoted`: the literal with the other quote; by `requote_raw` it is what `requote`
  gives.
* `requote_keepsValue`: a literal with the other quote means the same.
* `requote_backAndForth`: what comes back when the quotes are changed twice.
-/
import Mathlib.Data.List.TakeWhile
import Mathlib.Tactic.Common
import ContextHoist.Quotes
import ContextHoist.Token.Scan

namespace ContextHoist

/-! ### Literals -/

/-- The quotes of string literals. -/
inductive Quote where
  | single
  | double
  deriving DecidableEq, Repr

namespace Quote

/-- The quote as it is written. -/
def char : Quote → Char
  | single => '\''
  | double => '"'

/-- The other one. -/
def other : Quote → Quote
  | single => double
  | double => single

@[simp] lemma other_other (q : Quote) : q.other.other = q := by
  cases q <;> rfl

lemma char_ne_other (q : Quote) : q.char ≠ q.other.char := by
  cases q <;> decide

lemma char_ne_backslash (q : Quote) : q.char ≠ '\\' := by
  cases q <;> decide

end Quote

/-- A piece of the text between quotes. -/
inductive Piece where
  /-- A character that stands for itself. -/
  | plain (c : Char)
  /-- A backslash and the character behind it. -/
  | escape (c : Char)
  deriving DecidableEq, Repr

namespace Piece

/-- The piece as it is written. -/
def text : Piece → List Char
  | plain c => [c]
  | escape c => ['\\', c]

/-- Whether the piece can stand between these quotes. -/
def fits (quote : Char) : Piece → Bool
  | plain c => c != quote && c != '\\'
  | escape _ => true

/-- The piece when the quote changes. -/
def requoted (old new : Char) : Piece → Piece
  | plain c => if c = new then escape c else plain c
  | escape c => if c = old then plain c else escape c

lemma fits_plain {quote c : Char} : (plain c).fits quote = true ↔ c ≠ quote ∧ c ≠ '\\' := by
  simp [fits]

lemma requoted_plain_new (old new : Char) : (plain new).requoted old new = escape new := if_pos rfl

lemma requoted_plain_of_ne {old new c : Char} (hc : c ≠ new) :
    (plain c).requoted old new = plain c :=
  if_neg hc

lemma requoted_escape_old (old new : Char) : (escape old).requoted old new = plain old := if_pos rfl

lemma requoted_escape_of_ne {old new c : Char} (hc : c ≠ old) :
    (escape c).requoted old new = escape c :=
  if_neg hc

/-- A piece fits between the new quotes afterwards. -/
lemma fits_requoted {q : Quote} {p : Piece} (hp : p.fits q.char = true) :
    (p.requoted q.char q.other.char).fits q.other.char = true := by
  cases p with
  | plain c =>
    rw [requoted]
    split
    · rfl
    · next hc => exact fits_plain.2 ⟨hc, (fits_plain.1 hp).2⟩
  | escape c =>
    rw [requoted]
    split
    · next hc => exact fits_plain.2 ⟨hc ▸ q.char_ne_other, hc ▸ q.char_ne_backslash⟩
    · rfl

/-- The first piece of a text that fits can be told from the text. -/
lemma text_append_inj {quote : Char} {p q : Piece} (hp : p.fits quote = true)
    (hq : q.fits quote = true) {cs ds : List Char} (h : p.text ++ cs = q.text ++ ds) :
    p = q ∧ cs = ds := by
  cases p with
  | plain c =>
    cases q with
    | plain d => simpa [text] using h
    | escape d => exact absurd (List.cons.inj h).1 (fits_plain.1 hp).2
  | escape c =>
    cases q with
    | plain d => exact absurd (List.cons.inj h).1.symm (fits_plain.1 hq).2
    | escape d => simpa [text] using h

/-- Pieces that fit can be told from their text. -/
lemma flatMap_text_inj {quote : Char} {ps qs : List Piece} (hps : ∀ p ∈ ps, p.fits quote = true)
    (hqs : ∀ q ∈ qs, q.fits quote = true) (h : ps.flatMap text = qs.flatMap text) : ps = qs := by
  have hne : ∀ (p : Piece) (cs : List Char), p.text ++ cs ≠ [] := by
    intro p cs
    cases p <;> simp [text]
  induction ps generalizing qs with
  | nil =>
    cases qs with
    | nil => rfl
    | cons q qs => exact absurd h.symm (hne q _)
  | cons p ps ih =>
    cases qs with
    | nil => exact absurd h (hne p _)
    | cons q qs =>
      rw [List.forall_mem_cons] at hps hqs
      obtain ⟨rfl, hrest⟩ := text_append_inj hps.1 hqs.1 h
      rw [ih hps.2 hqs.2 hrest]

end Piece

/-- A string literal. -/
@[ext]
structure StringLiteral where
  /-- The quote on both sides. -/
  quote : Quote
  /-- What stands between the quotes. -/
  pieces : List Piece
  fits : ∀ p ∈ pieces, p.fits quote.char = true

namespace StringLiteral

/-- The text between the quotes. -/
def body (l : StringLiteral) : List Char :=
  l.pieces.flatMap Piece.text

/-- The literal as it is written. -/
def raw (l : StringLiteral) : String :=
  String.ofList (l.quote.char :: (l.body ++ [l.quote.char]))

lemma toList_raw (l : StringLiteral) :
    l.raw.toList = l.quote.char :: (l.body ++ [l.quote.char]) :=
  String.toList_ofList

/-- A text is that of one literal at most. -/
lemma raw_injective {l l' : StringLiteral} (hquote : l.quote = l'.quote) (h : l.raw = l'.raw) :
    l = l' := by
  have hlist := congrArg String.toList h
  rw [toList_raw, toList_raw, hquote] at hlist
  have hbody : l.body = l'.body := List.append_cancel_right (List.cons.inj hlist).2
  exact StringLiteral.ext hquote
    (Piece.flatMap_text_inj l.fits (by rw [hquote]; exact l'.fits) hbody)

end StringLiteral

/-- What follows an opening quote up to the closing one: pieces, and the quote. -/
def Piece.Close (q : Quote) (s : List Char) : Prop :=
  ∃ ps : List Piece, (∀ p ∈ ps, p.fits q.char = true) ∧ s = ps.flatMap text ++ [q.char]

lemma Piece.Close.append {q : Quote} {s : List Char} (h : Close q s) (ps : List Piece)
    (hps : ∀ p ∈ ps, p.fits q.char = true) : Close q (ps.flatMap text ++ s) := by
  obtain ⟨qs, hqs, rfl⟩ := h
  exact ⟨ps ++ qs, List.forall_mem_append.2 ⟨hps, hqs⟩, by simp⟩

/-- A string that is read from a source text is a literal. -/
theorem Scan.exists_stringLiteral (q : Quote) {cs s rest : List Char}
    (h : Scan.stringBody q.char cs = some (s, rest)) :
    ∃ l : StringLiteral, l.quote = q ∧ l.raw = String.ofList (q.char :: s) := by
  suffices hclose : Piece.Close q s by
    obtain ⟨ps, hfits, rfl⟩ := hclose
    exact ⟨⟨q, ps, hfits⟩, rfl, rfl⟩
  fun_induction Scan.stringBody q.char cs generalizing s with
  | case1 => exact absurd h (by simp)
  | case2 cs ih =>
    -- a line break of two characters is an escape and a character
    obtain ⟨⟨s', r⟩, hs', heq⟩ := Option.map_eq_some_iff.1 h
    obtain ⟨rfl, rfl⟩ := Prod.mk.inj heq
    exact (ih hs').append [.escape '\r', .plain '\n'] (by cases q <;> decide)
  | case3 c cs _ ih =>
    obtain ⟨⟨s', r⟩, hs', heq⟩ := Option.map_eq_some_iff.1 h
    obtain ⟨rfl, rfl⟩ := Prod.mk.inj heq
    exact (ih hs').append [.escape c] (by simp [Piece.fits])
  | case4 c cs _ _ hc =>
    obtain ⟨rfl, rfl⟩ := Prod.mk.inj (Option.some.inj h)
    exact ⟨[], by simp, by simpa using hc⟩
  | case5 => exact absurd h (by simp)
  | case6 c cs _ hpair hc _ ih =>
    obtain ⟨⟨s', r⟩, hs', heq⟩ := Option.map_eq_some_iff.1 h
    obtain ⟨rfl, rfl⟩ := Prod.mk.inj heq
    have hbackslash : c ≠ '\\' := by
      rintro rfl
      cases cs with
      | nil => exact absurd hs' (by simp [Scan.stringBody])
      | cons d cs => exact hpair d cs rfl rfl
    have hplain : (Piece.plain c).fits q.char = true :=
      Piece.fits_plain.2 ⟨by simpa using hc, hbackslash⟩
    exact (ih hs').append [.plain c] (List.forall_mem_singleton.2 hplain)

/-! ### Values -/

/-- The code units of a character or of a surrogate, by its number. -/
def codeUnits (n : ℕ) : List UInt16 :=
  if n < 0x10000 then [n.toUInt16]
  else [(0xD800 + (n - 0x10000) / 0x400).toUInt16, (0xDC00 + (n - 0x10000) % 0x400).toUInt16]

def isHexDigit (c : Char) : Bool :=
  (hexValue c).isSome

def isOctalDigit (c : Char) : Bool :=
  '0' ≤ c && c ≤ '7'

/-- The number that a list of octal digits writes. -/
def octalNumber (cs : List Char) : ℕ :=
  cs.foldl (fun n c => 8 * n + (c.toNat - '0'.toNat)) 0

/-- The characters behind `\u` that belong to the escape: digits in braces, or four digits. -/
def unicodeTail : List Char → List Char
  | '\x7b' :: cs =>
    '\x7b' :: (cs.takeWhile isHexDigit ++
      ((cs.dropWhile isHexDigit).takeWhile (· == '\x7d')).take 1)
  | cs => (cs.takeWhile isHexDigit).take 4

/-- The characters that belong to an escape, out of those behind its pair. -/
def escapeTail (c : Char) (cs : List Char) : List Char :=
  match c with
  | 'x' => (cs.takeWhile isHexDigit).take 2
  | 'u' => unicodeTail cs
  | '0' | '1' | '2' | '3' => (cs.takeWhile isOctalDigit).take 2
  | '4' | '5' | '6' | '7' => (cs.takeWhile isOctalDigit).take 1
  | '\r' => (cs.takeWhile (· == '\n')).take 1
  | _ => []

/-- What `\u` stands for with the characters that belong to the escape, if it is complete and its
number is that of a character or a surrogate. -/
def unicodeValue? : List Char → Option (List UInt16)
  | '\x7b' :: cs =>
    if 2 ≤ cs.length ∧ cs.getLast? = some '\x7d' then
      (hexNumber cs.dropLast).bind fun n => if n ≤ 0x10FFFF then some (codeUnits n) else none
    else none
  | cs => if cs.length = 4 then (hexNumber cs).map codeUnits else none

/-- What an escape stands for, given the characters that belong to it behind its pair.  The escape
of a line break stands for nothing, and that of most characters for the character itself. -/
def escapeValue? (c : Char) (tail : List Char) : Option (List UInt16) :=
  match c with
  | 'b' => some [8]
  | 't' => some [9]
  | 'n' => some [10]
  | 'v' => some [11]
  | 'f' => some [12]
  | 'r' => some [13]
  | '\n' | '\r' | '\u2028' | '\u2029' => some []
  | 'x' => if tail.length = 2 then (hexNumber tail).map codeUnits else none
  | 'u' => unicodeValue? tail
  | '0' | '1' | '2' | '3' | '4' | '5' | '6' | '7' => some (codeUnits (octalNumber (c :: tail)))
  | _ => some (codeUnits c.toNat)

/-- What a text between quotes stands for, apart from a number of characters at its front that
belong to an escape that has been read. -/
def valueFrom : ℕ → List Char → Option (List UInt16)
  | _, [] => some []
  | read + 1, _ :: cs => valueFrom read cs
  | 0, ['\\'] => none
  | 0, '\\' :: c :: cs =>
    (escapeValue? c (escapeTail c cs)).bind fun units =>
      (valueFrom (escapeTail c cs).length cs).map (units ++ ·)
  | 0, c :: cs => (valueFrom 0 cs).map (codeUnits c.toNat ++ ·)

/-- What a string literal stands for, as code units.  There is nothing that it stands for if an
escape by a hexadecimal code is incomplete or its number is too large. -/
def stringValue? (raw : String) : Option (List UInt16) :=
  valueFrom 0 raw.toList.tail.dropLast

/-- The literal `'\x41\u{1F600}\101\'\q'`, with a line break escaped at its end. -/
example : stringValue? "'\\x41\\u\x7b1F600\x7d\\101\\'\\q\\\r\n'" =
    some [0x41, 0xD83D, 0xDE00, 0x41, 0x27, 0x71] := by
  decide +kernel

lemma valueFrom_plain {c : Char} (hc : c ≠ '\\') (cs : List Char) :
    valueFrom 0 (c :: cs) = (valueFrom 0 cs).map (codeUnits c.toNat ++ ·) := by
  rw [valueFrom]
  · exact fun heq _ => hc heq
  · exact fun _ _ heq _ => hc heq

/-- A quote means the same whether it is escaped or not. -/
lemma valueFrom_escape_quote (q : Quote) (cs : List Char) :
    valueFrom 0 ('\\' :: q.char :: cs) = valueFrom 0 (q.char :: cs) := by
  cases q <;> rfl

/-! ### Escapes and quotes -/

/-- Whether a character is neither a quote nor a backslash. -/
def isOrdinary (c : Char) : Bool :=
  c != '\'' && c != '"' && c != '\\'

/-- Whether a class of characters has neither a quote nor a backslash in it. -/
def hasOrdinaryOnly (p : Char → Bool) : Bool :=
  !p '\'' && !p '"' && !p '\\'

lemma isOrdinary_of_mem {p : Char → Bool} (hp : hasOrdinaryOnly p = true) {c : Char}
    (hc : p c = true) : isOrdinary c = true := by
  simp only [hasOrdinaryOnly, Bool.and_eq_true, Bool.not_eq_true'] at hp
  have hne : ∀ d, p d = false → c ≠ d := by
    rintro d hd rfl
    exact absurd hc (by simp [hd])
  simp [isOrdinary, hne _ hp.1.1, hne _ hp.1.2, hne _ hp.2]

lemma takeWhile_ordinary {p : Char → Bool} (hp : hasOrdinaryOnly p = true) (cs : List Char) :
    (cs.takeWhile isOrdinary).takeWhile p = cs.takeWhile p := by
  rw [List.takeWhile_takeWhile]
  congr 1
  funext c
  rw [Bool.eq_iff_iff, decide_eq_true_iff]
  exact and_iff_left_of_imp (isOrdinary_of_mem hp)

lemma dropWhile_ordinary {p : Char → Bool} (hp : hasOrdinaryOnly p = true) (cs : List Char) :
    (cs.takeWhile isOrdinary).dropWhile p = (cs.dropWhile p).takeWhile isOrdinary := by
  induction cs with
  | nil => rfl
  | cons c cs ih =>
    by_cases hc : p c = true
    · rw [List.takeWhile_cons_of_pos (isOrdinary_of_mem hp hc), List.dropWhile_cons_of_pos hc,
        List.dropWhile_cons_of_pos hc, ih]
    · rw [List.dropWhile_cons_of_neg hc]
      by_cases ho : isOrdinary c = true
      · rw [List.takeWhile_cons_of_pos ho, List.dropWhile_cons_of_neg hc]
      · rw [List.takeWhile_cons_of_neg ho, List.dropWhile_nil]

lemma unicodeTail_of_ne {cs : List Char} (h : cs.head? ≠ some '\x7b') :
    unicodeTail cs = (cs.takeWhile isHexDigit).take 4 := by
  unfold unicodeTail
  split
  · exact absurd rfl h
  · rfl

lemma unicodeTail_ordinary (cs : List Char) :
    unicodeTail (cs.takeWhile isOrdinary) = unicodeTail cs := by
  have hhex := takeWhile_ordinary (p := isHexDigit) (by decide)
  have hbrace := takeWhile_ordinary (p := (· == '\x7d')) (by decide)
  by_cases h : cs.head? = some '\x7b'
  · obtain ⟨cs, rfl⟩ := List.head?_eq_some_iff.1 h
    rw [List.takeWhile_cons_of_pos (by decide), unicodeTail, unicodeTail, hhex,
      dropWhile_ordinary (by decide), hbrace]
  · have hfront : (cs.takeWhile isOrdinary).head? ≠ some '\x7b' := by
      rw [List.head?_takeWhile]
      intro heq
      exact h (Option.eq_some_of_filter_eq_some heq)
    rw [unicodeTail_of_ne h, unicodeTail_of_ne hfront, hhex]

/-- What belongs to an escape stands in front of the next quote or backslash. -/
lemma escapeTail_ordinary (c : Char) (cs : List Char) :
    escapeTail c (cs.takeWhile isOrdinary) = escapeTail c cs := by
  have hhex := takeWhile_ordinary (p := isHexDigit) (by decide)
  have hoctal := takeWhile_ordinary (p := isOctalDigit) (by decide)
  have hbreak := takeWhile_ordinary (p := (· == '\n')) (by decide)
  unfold escapeTail
  split <;> simp only [hhex, hoctal, hbreak, unicodeTail_ordinary]

lemma length_escapeTail_le (c : Char) (cs : List Char) : (escapeTail c cs).length ≤ cs.length := by
  have htake : ∀ (p : Char → Bool) (n : ℕ) (ds : List Char),
      ((ds.takeWhile p).take n).length ≤ ds.length := by
    intro p n ds
    exact ((List.take_sublist n _).trans (List.takeWhile_sublist p)).length_le
  have hunicode : (unicodeTail cs).length ≤ cs.length := by
    unfold unicodeTail
    split
    · next ds =>
      have hsplit := congrArg List.length
        (List.takeWhile_append_dropWhile (p := isHexDigit) (l := ds))
      have hbrace := htake (· == '\x7d') 1 (ds.dropWhile isHexDigit)
      simp only [List.length_cons, List.length_append] at hsplit hbrace ⊢
      omega
    · exact htake _ _ _
  unfold escapeTail
  split
  case h_2 => exact hunicode
  case h_12 => exact Nat.zero_le _
  all_goals exact htake _ _ _

/-! ### Other quotes -/

/-- A text is read piece by piece when its quotes change. -/
lemma requoteInner_flatMap {old : Char} (new : Char) {ps : List Piece}
    (hps : ∀ p ∈ ps, p.fits old = true) :
    requoteInner old new (ps.flatMap Piece.text) =
      (ps.map (Piece.requoted old new)).flatMap Piece.text := by
  induction ps with
  | nil => rfl
  | cons p ps ih =>
    rw [List.forall_mem_cons] at hps
    rw [List.flatMap_cons, List.map_cons, List.flatMap_cons, ← ih hps.2]
    cases p with
    | plain c =>
      have hc := (Piece.fits_plain.1 hps.1).2
      rw [Piece.text, List.singleton_append, requoteInner, Piece.requoted]
      · split <;> rfl
      · exact fun heq _ => hc heq
      · exact fun _ _ heq _ => hc heq
    | escape c =>
      simp only [Piece.text, List.cons_append, List.nil_append, requoteInner, Piece.requoted]
      split <;> rfl

namespace StringLiteral

/-- The literal with the other quote. -/
def requoted (l : StringLiteral) : StringLiteral where
  quote := l.quote.other
  pieces := l.pieces.map (Piece.requoted l.quote.char l.quote.other.char)
  fits := by
    intro p' hp'
    obtain ⟨p, hp, rfl⟩ := List.mem_map.1 hp'
    exact Piece.fits_requoted (l.fits p hp)

@[simp] lemma quote_requoted (l : StringLiteral) : l.requoted.quote = l.quote.other := rfl

@[simp] lemma body_requoted (l : StringLiteral) :
    l.requoted.body = requoteInner l.quote.char l.quote.other.char l.body :=
  (requoteInner_flatMap _ l.fits).symm

/-- The text of a literal becomes that of the literal with the other quote. -/
lemma requote_raw (l : StringLiteral) : requote l.raw l.quote.other.char = some l.requoted.raw := by
  have hquote : (l.quote.char = '\'' || l.quote.char = '"') = true := by
    cases l.quote <;> decide
  rw [requote, toList_raw, requoteChars]
  simp [l.quote.char_ne_other, hquote, raw]

end StringLiteral

/-! ### Values with other quotes -/

lemma isOrdinary_quote (q : Quote) : isOrdinary q.char = false := by
  cases q <;> decide

/-- Up to the first quote or backslash, a text stays as it is when its quotes change. -/
lemma takeWhile_requoted (q : Quote) (ps : List Piece) :
    ((ps.map (Piece.requoted q.char q.other.char)).flatMap Piece.text).takeWhile isOrdinary =
      (ps.flatMap Piece.text).takeWhile isOrdinary := by
  have hbackslash : isOrdinary '\\' = false := by decide
  induction ps with
  | nil => rfl
  | cons p ps ih =>
    cases p with
    | plain c =>
      by_cases hc : c = q.other.char
      · simp [Piece.requoted, Piece.text, hc, isOrdinary_quote, hbackslash]
      · simp [Piece.requoted, Piece.text, hc, List.takeWhile_cons, ih]
    | escape c =>
      by_cases hc : c = q.char
      · simp [Piece.requoted, Piece.text, hc, isOrdinary_quote, hbackslash]
      · simp [Piece.requoted, Piece.text, hc, hbackslash]

/-- A text means the same with other quotes, also if some of its first characters belong to an
escape that has been read. -/
lemma valueFrom_requoted {q : Quote} {ps : List Piece} (hps : ∀ p ∈ ps, p.fits q.char = true)
    {read : ℕ} (hread : read ≤ ((ps.flatMap Piece.text).takeWhile isOrdinary).length) :
    valueFrom read ((ps.map (Piece.requoted q.char q.other.char)).flatMap Piece.text) =
      valueFrom read (ps.flatMap Piece.text) := by
  induction ps generalizing read with
  | nil => rfl
  | cons p ps ih =>
    rw [List.forall_mem_cons] at hps
    have hrest := ih hps.2 (Nat.zero_le _)
    rw [List.map_cons, List.flatMap_cons, List.flatMap_cons]
    rw [List.flatMap_cons] at hread
    cases p with
    | plain c =>
      have hc := (Piece.fits_plain.1 hps.1).2
      by_cases hnew : c = q.other.char
      · subst hnew
        obtain rfl : read = 0 := by simpa [Piece.text, isOrdinary_quote] using hread
        rw [Piece.requoted_plain_new]
        simp only [Piece.text, List.cons_append, List.nil_append, valueFrom_escape_quote,
          valueFrom_plain hc, hrest]
      · rw [Piece.requoted_plain_of_ne hnew]
        cases read with
        | zero => simp only [Piece.text, List.singleton_append, valueFrom_plain hc, hrest]
        | succ read =>
          have hordinary : isOrdinary c = true := by
            by_contra h
            simp [Piece.text, h] at hread
          simp only [Piece.text, List.singleton_append, List.takeWhile_cons_of_pos hordinary,
            List.length_cons, Nat.add_le_add_iff_right] at hread
          exact ih hps.2 hread
    | escape c =>
      obtain rfl : read = 0 := by simpa [Piece.text, isOrdinary] using hread
      by_cases hold : c = q.char
      · subst hold
        rw [Piece.requoted_escape_old]
        simp only [Piece.text, List.cons_append, List.nil_append, valueFrom_escape_quote,
          valueFrom_plain q.char_ne_backslash, hrest]
      · -- the escape takes in the same characters, and these stand in front of the next piece that
        -- changes
        have htail :
            escapeTail c ((ps.map (Piece.requoted q.char q.other.char)).flatMap Piece.text) =
              escapeTail c (ps.flatMap Piece.text) := by
          rw [← escapeTail_ordinary, takeWhile_requoted, escapeTail_ordinary]
        have hlength : (escapeTail c (ps.flatMap Piece.text)).length ≤
            ((ps.flatMap Piece.text).takeWhile isOrdinary).length := by
          rw [← escapeTail_ordinary]
          exact length_escapeTail_le _ _
        rw [Piece.requoted_escape_of_ne hold]
        simp only [Piece.text, List.cons_append, List.nil_append, valueFrom, htail,
          ih hps.2 hlength]

lemma StringLiteral.stringValue?_raw (l : StringLiteral) :
    stringValue? l.raw = valueFrom 0 l.body := by
  rw [stringValue?, l.toList_raw, List.tail_cons, List.dropLast_concat]

lemma StringLiteral.stringValue?_requoted (l : StringLiteral) :
    stringValue? l.requoted.raw = stringValue? l.raw := by
  rw [stringValue?_raw, stringValue?_raw]
  exact valueFrom_requoted l.fits (Nat.zero_le _)

/-- Every string literal can be given the other quote; the result is a literal that means the
same. -/
theorem requote_keepsValue (l : StringLiteral) :
    ∃ l' : StringLiteral, requote l.raw l.quote.other.char = some l'.raw ∧
      l'.quote = l.quote.other ∧ stringValue? l'.raw = stringValue? l.raw :=
  ⟨l.requoted, l.requote_raw, rfl, l.stringValue?_requoted⟩

/-! ### There and back -/

namespace Piece

/-- An escape of the other quote has lost its backslash when a piece comes back, and any other piece
is what it was. -/
lemma requoted_requoted (q : Quote) {p : Piece} (hp : p.fits q.char = true) :
    (p.requoted q.char q.other.char).requoted q.other.char q.char =
      if p = escape q.other.char then plain q.other.char else p := by
  have hne := q.char_ne_other
  cases p with
  | plain c =>
    have hc := (fits_plain.1 hp).1
    by_cases hnew : c = q.other.char
    · rw [hnew, requoted_plain_new, requoted_escape_old, if_neg (by simp)]
    · rw [requoted_plain_of_ne hnew, requoted_plain_of_ne hc, if_neg (by simp)]
  | escape c =>
    by_cases hold : c = q.char
    · rw [hold, requoted_escape_old, requoted_plain_new, if_neg (by simp [hne])]
    · rw [requoted_escape_of_ne hold]
      by_cases hnew : c = q.other.char
      · rw [hnew, requoted_escape_old, if_pos rfl]
      · rw [requoted_escape_of_ne hnew, if_neg (by simp [hnew])]

/-- The old quote is not escaped any more. -/
lemma requoted_ne_escape (q : Quote) (p : Piece) :
    p.requoted q.char q.other.char ≠ escape q.char := by
  intro h
  cases p with
  | plain c =>
    rw [requoted] at h
    split at h
    · next hc => exact q.char_ne_other ((escape.inj h).symm.trans hc)
    · exact absurd h (by simp)
  | escape c =>
    rw [requoted] at h
    split at h
    · exact absurd h (by simp)
    · next hc => exact hc (escape.inj h)

end Piece

namespace StringLiteral

/-- A literal comes back as it was if and only if the other quote is nowhere escaped in it. -/
lemma requoted_requoted_eq_iff (l : StringLiteral) :
    l.requoted.requoted = l ↔ .escape l.quote.other.char ∉ l.pieces := by
  have hpieces : l.requoted.requoted.pieces = l.pieces.map fun p =>
      if p = .escape l.quote.other.char then .plain l.quote.other.char else p := by
    simp only [requoted, Quote.other_other, List.map_map]
    exact List.map_congr_left fun p hp => Piece.requoted_requoted l.quote (l.fits p hp)
  have hself : l.requoted.requoted = l ↔ ∀ p ∈ l.pieces,
      (if p = .escape l.quote.other.char then .plain l.quote.other.char else p) = p := by
    rw [StringLiteral.ext_iff, hpieces, ← List.map_inj_left, List.map_id']
    exact and_iff_right l.quote.other_other
  rw [hself]
  constructor
  · intro h hmem
    exact absurd (h _ hmem) (by simp)
  · intro hnot p hp
    have hne : p ≠ .escape l.quote.other.char := by
      rintro rfl
      exact hnot hp
    exact if_neg hne

end StringLiteral

/-- The quotes of a literal can be changed and changed back.  Then they can be changed once more, to
what they were after the first change.  The literal itself comes back if and only if the other quote
is nowhere escaped in it. -/
theorem requote_backAndForth (l : StringLiteral) :
    ∃ r₁ r₂, requote l.raw l.quote.other.char = some r₁ ∧ requote r₁ l.quote.char = some r₂ ∧
      requote r₂ l.quote.other.char = some r₁ ∧
      (r₂ = l.raw ↔ .escape l.quote.other.char ∉ l.pieces) := by
  have hback := l.requoted.requote_raw
  have hagain := l.requoted.requoted.requote_raw
  simp only [StringLiteral.quote_requoted, Quote.other_other] at hback hagain
  -- no quote of the first kind is escaped after the first change
  have hstable : l.requoted.requoted.requoted = l.requoted := by
    rw [StringLiteral.requoted_requoted_eq_iff]
    intro hmem
    obtain ⟨p, -, hp⟩ := List.mem_map.1 hmem
    simp only [StringLiteral.quote_requoted, Quote.other_other] at hp
    exact p.requoted_ne_escape l.quote hp
  rw [hstable] at hagain
  refine ⟨l.requoted.raw, l.requoted.requoted.raw, l.requote_raw, hback, hagain, ?_⟩
  rw [← l.requoted_requoted_eq_iff]
  exact ⟨StringLiteral.raw_injective l.quote.other_other, congrArg StringLiteral.raw⟩

end ContextHoist
