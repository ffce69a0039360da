import Mathlib.Data.List.Chain
import TemplateCheck.Pattern.Character
import TemplateCheck.Proofs.Languages

/-!
# Which texts are patterns

The texts without a fault are those of a grammar. A binary pattern is a row of digits and wildcards, and in an octet
pattern of wildcards and pairs of digits. A character pattern splits into escapes, sets and single characters; what is
in a set or behind a backslash has no part in how parentheses and braces match. Joining patterns is associative although
literal text is merged where two of them meet.
-/

namespace TemplateCheck

open List

namespace BinaryFamily

def HexDigit (c : Char) : Prop := '0' ≤ c ∧ c ≤ '9' ∨ 'A' ≤ c ∧ c ≤ 'F' ∨ 'a' ≤ c ∧ c ≤ 'f'

variable {c : Char} {family : BinaryFamily} {text : List Char}

theorem isHexDigit_iff : isHexDigit c ↔ HexDigit c := by
  simp only [isHexDigit, HexDigit, Bool.or_eq_true, Bool.and_eq_true, decide_eq_true_eq]
  tauto

theorem isWildcard_iff : isWildcard c ↔ c = '?' ∨ c = '*' := by
  simp [isWildcard]

theorem digitsFault?_eq_none_iff : family.digitsFault? text = none ↔ ∀ c ∈ text, family.isDigit c ∨ isWildcard c := by
  induction text with
  | nil => simp [digitsFault?]
  | cons c rest ih =>
    rw [digitsFault?, forall_mem_cons, ← ih, ← Bool.or_eq_true]
    split <;> simp [*]

/-- A wildcard or the two digits of an octet. -/
def OctetPiece (piece : List Char) : Prop :=
  piece = ['?'] ∨ piece = ['*'] ∨ ∃ first second, piece = [first, second] ∧ HexDigit first ∧ HexDigit second

theorem Written.exists_pieces {symbols : List family.Symbol}
    (h : Written family text symbols) (hFamily : family = .octet) :
    ∃ pieces : List (List Char), text = pieces.flatten ∧ ∀ piece ∈ pieces, OctetPiece piece := by
  induction h with
  | nil => exact ⟨[], rfl, by simp⟩
  | many _ ih =>
    obtain ⟨pieces, rfl, hPieces⟩ := ih hFamily
    exact ⟨['*'] :: pieces, rfl, forall_mem_cons.2 ⟨.inr (.inl rfl), hPieces⟩⟩
  | any _ ih =>
    obtain ⟨pieces, rfl, hPieces⟩ := ih hFamily
    exact ⟨['?'] :: pieces, rfl, forall_mem_cons.2 ⟨.inl rfl, hPieces⟩⟩
  | digit hOther => exact absurd hFamily hOther
  | pair hFirst hSecond _ ih =>
    obtain ⟨pieces, rfl, hPieces⟩ := ih rfl
    have hPair : OctetPiece [_, _] := .inr (.inr ⟨_, _, rfl, isHexDigit_iff.1 hFirst, isHexDigit_iff.1 hSecond⟩)
    exact ⟨_ :: pieces, rfl, forall_mem_cons.2 ⟨hPair, hPieces⟩⟩

theorem octetsFault?_eq_none_iff : octetsFault? false text = none ↔
    ∃ pieces : List (List Char), text = pieces.flatten ∧ ∀ piece ∈ pieces, OctetPiece piece := by
  constructor
  · intro h
    obtain ⟨symbols, hWritten⟩ := written_of_octetsFault? h
    exact hWritten.exists_pieces rfl
  · rintro ⟨pieces, rfl, hPieces⟩
    induction pieces with
    | nil => rfl
    | cons piece pieces ih =>
      obtain ⟨hPiece, hRest⟩ := forall_mem_cons.1 hPieces
      obtain rfl | rfl | ⟨first, second, rfl, hFirst, hSecond⟩ := hPiece
      · exact ih hRest
      · exact ih hRest
      · simpa [octetsFault?, isHexDigit_iff.2 hFirst, isHexDigit_iff.2 hSecond] using ih hRest

end BinaryFamily

namespace CharPattern

variable {b : Brackets} {c : Char} {text rest body singles : List Char}

theorem faultFrom?_cons (hc : c ≠ '\\') : faultFrom? b (c :: rest) = match b.read c with
    | .ok next => faultFrom? next rest
    | .error fault => some fault := by
  rw [faultFrom?.eq_def]
  grind

theorem Brackets.eq_of_fault? (h : b.fault? = none) : b = {} := by
  obtain ⟨groups, inSet, inBrace⟩ := b
  unfold Brackets.fault? at h
  grind

/-- What stands in a set: escapes and characters that do not close it. -/
inductive SetBody : List Char → Prop where
  | nil : SetBody []
  | escape {c : Char} {text : List Char} : SetBody text → SetBody ('\\' :: c :: text)
  | character {c : Char} {text : List Char} : c ≠ '\\' → c ≠ ']' → SetBody text → SetBody (c :: text)

/-- How a text splits into escapes, sets and single characters, with the single characters in a row. -/
inductive Splits : List Char → List Char → Prop where
  | nil : Splits [] []
  | escape {c : Char} {text singles : List Char} : Splits text singles → Splits ('\\' :: c :: text) singles
  | set {body text singles : List Char} : SetBody body → Splits text singles →
      Splits ('[' :: (body ++ ']' :: text)) singles
  | single {c : Char} {text singles : List Char} : c ≠ '\\' → c ≠ '[' → Splits text singles →
      Splits (c :: text) (c :: singles)

def isBrace (c : Char) : Bool := c = '\x7b' || c = '\x7d'

def Alternates (braces : List Char) : Prop := ∃ n, braces = (replicate n ['\x7b', '\x7d']).flatten

theorem alternates_nil : Alternates [] := ⟨0, rfl⟩

theorem alternates_cons : Alternates (c :: text) ↔ c = '\x7b' ∧ ∃ rest, text = '\x7d' :: rest ∧ Alternates rest := by
  constructor
  · rintro ⟨n, h⟩
    cases n with
    | zero => cases h
    | succ n =>
      cases h
      exact ⟨rfl, _, rfl, n, rfl⟩
  · rintro ⟨rfl, _, rfl, n, rfl⟩
    exact ⟨n + 1, rfl⟩

/-- Every closing parenthesis or brace has its partner before it, where some are open already. -/
structure Matched (b : Brackets) (singles : List Char) : Prop where
  opened : ∀ start, start <+: singles → start.count ')' ≤ b.groups + start.count '('
  closed : singles.count ')' = b.groups + singles.count '('
  braces : Alternates ((if b.inBrace then ['\x7b'] else []) ++ singles.filter isBrace)

theorem matched_nil (hSet : b.inSet = false) : Matched b [] ↔ b.fault? = none := by
  constructor
  · rintro ⟨-, hClosed, hBraces⟩
    cases hBrace : b.inBrace with
    | true => simp [hBrace, alternates_cons] at hBraces
    | false => simp_all [Brackets.fault?]
  · intro h
    rw [Brackets.eq_of_fault? h]
    exact ⟨by simp, rfl, alternates_nil⟩

theorem forall_prefix_cons {P : List Char → Prop} :
    (∀ start, start <+: c :: singles → P start) ↔ P [] ∧ ∀ start, start <+: singles → P (c :: start) := by
  simp only [prefix_cons_iff]
  grind

theorem matched_cons (hSet : b.inSet = false) (hc : c ≠ '[') :
    Matched b (c :: singles) ↔ ∃ next, b.read c = .ok next ∧ next.inSet = false ∧ Matched next singles := by
  obtain ⟨groups, _, inBrace⟩ := b
  cases hSet
  have hIff : ∀ {b : Brackets} {singles : List Char}, Matched b singles ↔
      (∀ start, start <+: singles → start.count ')' ≤ b.groups + start.count '(') ∧
        singles.count ')' = b.groups + singles.count '(' ∧
        Alternates ((if b.inBrace then ['\x7b'] else []) ++ singles.filter isBrace) :=
    ⟨fun h => ⟨h.opened, h.closed, h.braces⟩, fun ⟨h, h', h''⟩ => ⟨h, h', h''⟩⟩
  rw [hIff, forall_prefix_cons]
  by_cases hOpen : c = '\x7b'
  · subst hOpen
    cases inBrace <;> simp [Brackets.read, hIff, isBrace, alternates_cons]
  by_cases hClose : c = '\x7d'
  · subst hClose
    cases inBrace <;> simp [Brackets.read, hIff, isBrace, alternates_cons]
  by_cases hLeft : c = '('
  · subst hLeft
    simp [Brackets.read, hIff, isBrace]
    grind
  by_cases hRight : c = ')'
  · subst hRight
    cases groups with
    | zero =>
      -- the prefix `)` alone closes a group that was never opened
      refine iff_of_false (fun h => ?_) (by simp [Brackets.read])
      simpa using h.1.2 [] nil_prefix
    | succ groups =>
      simp [Brackets.read, hIff, isBrace]
      grind
  · simp [Brackets.read, hIff, isBrace, hc, hOpen, hClose, hLeft, hRight]

theorem SetBody.faultFrom?_append (h : SetBody body) :
    faultFrom? { b with inSet := true } (body ++ ']' :: rest) = faultFrom? { b with inSet := false } rest := by
  induction h with
  | nil => simp [faultFrom?_cons, Brackets.read]
  | escape _ ih => simpa [faultFrom?] using ih
  | character hc hClose _ ih => simpa [faultFrom?_cons hc, Brackets.read, hClose] using ih

theorem Splits.faultFrom?_eq_none (h : Splits text singles) :
    ∀ {b : Brackets}, b.inSet = false → Matched b singles → faultFrom? b text = none := by
  induction h with
  | nil =>
    intro b hSet hMatched
    simpa [faultFrom?] using (matched_nil hSet).1 hMatched
  | escape _ ih =>
    intro b hSet hMatched
    simpa [faultFrom?] using ih hSet hMatched
  | set hBody _ ih =>
    intro b hSet hMatched
    obtain ⟨groups, _, inBrace⟩ := b
    cases hSet
    rw [faultFrom?_cons (by decide)]
    exact (hBody.faultFrom?_append (b := ⟨groups, false, inBrace⟩)).trans (ih rfl hMatched)
  | single hc hOpen _ ih =>
    intro b hSet hMatched
    obtain ⟨next, hRead, hNext, hRest⟩ := (matched_cons hSet hOpen).1 hMatched
    simpa [faultFrom?_cons hc, hRead] using ih hNext hRest

/-- The reader's set is the one its text has still to close. -/
theorem exists_splits (h : faultFrom? b text = none) :
    ∃ body rest singles, Splits rest singles ∧ Matched { b with inSet := false } singles ∧
      (if b.inSet then SetBody body ∧ text = body ++ ']' :: rest else text = rest) := by
  fun_induction faultFrom? b text with
  | case1 b =>
    cases Brackets.eq_of_fault? h
    exact ⟨[], [], [], .nil, (matched_nil rfl).2 rfl, rfl⟩
  | case2 => cases h
  | case3 b c text ih =>
    obtain ⟨body, rest, singles, hSplits, hMatched, hText⟩ := ih h
    by_cases hSet : b.inSet
    · obtain ⟨hBody, rfl⟩ := by simpa [hSet] using hText
      exact ⟨_, rest, singles, hSplits, hMatched, by simpa [hSet] using ⟨hBody.escape, rfl⟩⟩
    · obtain rfl : text = rest := by simpa [hSet] using hText
      exact ⟨body, _, singles, hSplits.escape, hMatched, by simp [hSet]; rfl⟩
  | case4 b c text hOne hEscape next hRead ih =>
    obtain ⟨body, rest, singles, hSplits, hMatched, hText⟩ := ih h
    have hc : c ≠ '\\' := by
      rintro rfl
      cases text with
      | nil => exact hOne rfl rfl
      | cons => exact hEscape _ _ rfl rfl
    obtain ⟨groups, inSet, inBrace⟩ := b
    cases inSet with
    | true =>
      obtain rfl : ⟨groups, c ≠ ']', inBrace⟩ = next := by simpa [Brackets.read] using hRead
      by_cases hClose : c = ']'
      · obtain rfl : text = rest := by simpa [hClose] using hText
        exact ⟨[], _, singles, hSplits, hMatched, .nil, by rw [hClose]; rfl⟩
      · obtain ⟨hBody, rfl⟩ := by simpa [hClose] using hText
        exact ⟨_, rest, singles, hSplits, hMatched, hBody.character hc hClose, rfl⟩
    | false =>
      by_cases hOpen : c = '['
      · subst hOpen
        obtain rfl : ⟨groups, true, inBrace⟩ = next := by simpa [Brackets.read] using hRead
        obtain ⟨hBody, rfl⟩ := hText
        exact ⟨[], _, singles, .set hBody hSplits, hMatched, rfl⟩
      · have hNext : next.inSet = false := by grind [Brackets.read]
        obtain rfl : text = rest := by simpa [hNext] using hText
        have hSingle := (matched_cons (b := ⟨groups, false, inBrace⟩) rfl hOpen).2
          ⟨next, hRead, hNext, by simpa [← hNext] using hMatched⟩
        exact ⟨[], _, _, .single hc hOpen hSplits, hSingle, rfl⟩
  | case5 => cases h

theorem textFault?_eq_none_iff {text : String} :
    textFault? text = none ↔ ∃ singles, Splits text.toList singles ∧ Matched {} singles := by
  constructor
  · intro h
    obtain ⟨_, rest, singles, hSplits, hMatched, rfl⟩ := exists_splits h
    exact ⟨singles, hSplits, hMatched⟩
  · rintro ⟨singles, hSplits, hMatched⟩
    exact hSplits.faultFrom?_eq_none rfl hMatched

end CharPattern

/-- The legal patterns of each kind are the texts of its grammar. -/
theorem patternFault?_and_textFault?_eq_none_iff (text : String) :
    (BinaryFamily.bit.patternFault? text = none ↔ ∀ c ∈ text.toList, c ∈ ['0', '1', '?', '*']) ∧
    (BinaryFamily.hex.patternFault? text = none ↔
      ∀ c ∈ text.toList, BinaryFamily.HexDigit c ∨ c = '?' ∨ c = '*') ∧
    (BinaryFamily.octet.patternFault? text = none ↔ ∃ pieces : List (List Char),
      text.toList = pieces.flatten ∧ ∀ piece ∈ pieces, BinaryFamily.OctetPiece piece) ∧
    (CharPattern.textFault? text = none ↔ ∃ singles, CharPattern.Splits text.toList singles ∧
      (∀ start, start <+: singles → start.count ')' ≤ start.count '(') ∧
      singles.count '(' = singles.count ')' ∧
      CharPattern.Alternates (singles.filter CharPattern.isBrace)) := by
  refine ⟨?_, ?_, BinaryFamily.octetsFault?_eq_none_iff, ?_⟩
  · refine BinaryFamily.digitsFault?_eq_none_iff.trans ?_
    simp [BinaryFamily.isDigit, BinaryFamily.isWildcard_iff, or_assoc]
  · refine BinaryFamily.digitsFault?_eq_none_iff.trans ?_
    simp [BinaryFamily.isDigit, BinaryFamily.isHexDigit_iff, BinaryFamily.isWildcard_iff]
  · rw [CharPattern.textFault?_eq_none_iff]
    refine exists_congr fun singles => and_congr_right fun _ => ?_
    constructor
    · rintro ⟨hOpened, hClosed, hBraces⟩
      exact ⟨by simpa using hOpened, by simpa using hClosed.symm, hBraces⟩
    · rintro ⟨hOpened, hClosed, hBraces⟩
      exact ⟨by simpa using hOpened, by simpa using hClosed.symm, hBraces⟩

namespace CharPattern

variable {p q : CharPattern} {start segments : List PatternSegment} {a : String}

theorem appendText_literal (last text : String) :
    appendText ⟨start ++ [.literal last]⟩ text = ⟨start ++ [.literal (last ++ text)]⟩ := by
  simp [appendText]

/-- Text is added to a literal at the end, and is a literal of its own where there is none. -/
theorem appendText_cases (p : CharPattern) : (∃ start last, p = ⟨start ++ [.literal last]⟩) ∨
    (∀ segment ∈ p.segments.getLast?, literal? segment = none) ∧
      ∀ text, p.appendText text = ⟨p.segments ++ [.literal text]⟩ := by
  obtain ⟨segments⟩ := p
  obtain rfl | ⟨start, segment, rfl⟩ := eq_nil_or_concat segments
  · exact .inr ⟨by simp, fun _ => rfl⟩
  · cases segment with
    | literal last => exact .inl ⟨start, last, by simp⟩
    | ref => exact .inr ⟨by simp [literal?], by simp [appendText]⟩

theorem appendText_appendText (p : CharPattern) (a b : String) :
    (p.appendText a).appendText b = p.appendText (a ++ b) := by
  obtain ⟨start, last, rfl⟩ | ⟨-, hAdd⟩ := appendText_cases p
  · simp only [appendText_literal, String.append_assoc]
  · rw [hAdd, hAdd, appendText_literal]

theorem append_cons (p : CharPattern) (segment : PatternSegment) :
    p.append ⟨segment :: segments⟩ = (p.push segment).append ⟨segments⟩ := rfl

theorem append_concat (p : CharPattern) (segment : PatternSegment) :
    p.append ⟨segments ++ [segment]⟩ = (p.append ⟨segments⟩).push segment := by
  simp [append]

theorem append_push (p q : CharPattern) (segment : PatternSegment) :
    p.append (q.push segment) = (p.append q).push segment := by
  cases segment with
  | ref => exact append_concat p _
  | literal text =>
    obtain ⟨start, last, rfl⟩ | ⟨-, hAdd⟩ := appendText_cases q
    · rw [push, appendText_literal, append_concat, append_concat]
      exact (appendText_appendText _ last text).symm
    · rw [push, hAdd]
      exact append_concat p _

theorem append_assoc (p q r : CharPattern) : (p.append q).append r = p.append (q.append r) := by
  obtain ⟨segments⟩ := r
  induction segments generalizing q with
  | nil => rfl
  | cons segment segments ih => rw [append_cons, append_cons, ← append_push, ih]

theorem text?_eq_some :
    p.text? = some a ↔ ∃ texts, p.segments = texts.map .literal ∧ String.join texts = a := by
  have hLiteral : ∀ {segments : List PatternSegment} {texts : List String},
      segments.mapM literal? = some texts ↔ segments = texts.map .literal := by
    intro segments
    induction segments with
    | nil => simp [eq_comm]
    | cons segment segments ih =>
      intro texts
      cases segment <;> cases texts <;> simp [literal?, Option.bind_eq_some_iff, ih, and_comm]
  simp [text?, hLiteral, String.join]

theorem text?_segments (start rest : List PatternSegment) :
    text? ⟨start ++ rest⟩ = (text? ⟨start⟩).bind fun a => (text? ⟨rest⟩).map (a ++ ·) := by
  ext a
  simp only [text?_eq_some, Option.bind_eq_some_iff, Option.map_eq_some_iff, append_eq_map_iff]
  constructor
  · rintro ⟨_, ⟨texts, more, rfl, rfl, rfl⟩, rfl⟩
    exact ⟨_, ⟨texts, rfl, rfl⟩, _, ⟨more, rfl, rfl⟩, String.join_append.symm⟩
  · rintro ⟨_, ⟨texts, rfl, rfl⟩, _, ⟨more, rfl, rfl⟩, rfl⟩
    exact ⟨_, ⟨texts, more, rfl, rfl, rfl⟩, String.join_append⟩

/-- What is read off the segments one after the other, and reads merged text as its two parts, is joined as they are. -/
theorem view_append {α : Type} (view : List PatternSegment → α) (join : α → α → α)
    (hJoin : ∀ start rest, view (start ++ rest) = join (view start) (view rest))
    (hText : ∀ a b, view [.literal (a ++ b)] = view [.literal a, .literal b]) (p q : CharPattern) :
    view (p.append q).segments = join (view p.segments) (view q.segments) := by
  have hPush : ∀ (p : CharPattern) segment, view (p.push segment).segments = view (p.segments ++ [segment]) := by
    intro p segment
    cases segment with
    | ref => rfl
    | literal text =>
      obtain ⟨start, last, rfl⟩ | ⟨-, hAdd⟩ := appendText_cases p
      · rw [push, appendText_literal, hJoin, hText, ← hJoin, List.append_assoc]
        rfl
      · rw [push, hAdd]
  obtain ⟨segments⟩ := q
  rw [← hJoin]
  induction segments generalizing p with
  | nil => rw [append_nil]; rfl
  | cons segment segments ih => rw [append_cons, ih, hJoin, hPush, ← hJoin, List.append_assoc]; rfl

theorem text?_append (p q : CharPattern) : (p.append q).text? = p.text?.bind fun a => q.text?.map (a ++ ·) :=
  view_append (fun segments => text? ⟨segments⟩) (fun a b => a.bind fun a => b.map (a ++ ·)) text?_segments
    (fun a b => by simp [text?, literal?]) p q

theorem text?_append_eq_some {b : String} (hp : p.text? = some a) (hq : q.text? = some b) :
    (p.append q).text? = some (a ++ b) := by
  rw [text?_append, hp, hq]
  rfl

theorem text?_appendText (h : p.text? = some a) (b : String) : (p.appendText b).text? = some (a ++ b) :=
  text?_append_eq_some h (by simp [text?, literal?] : text? ⟨[.literal b]⟩ = some b)

def reference? : PatternSegment → Option Reference
  | .literal _ => none
  | .ref reference => some reference

def references (p : CharPattern) : List Reference := p.segments.filterMap reference?

theorem references_append (p q : CharPattern) : (p.append q).references = p.references ++ q.references :=
  view_append (filterMap reference?) (· ++ ·) (fun _ _ => filterMap_append) (fun _ _ => rfl) p q

theorem hasReferences_append (p q : CharPattern) : (p.append q).hasReferences = (p.hasReferences || q.hasReferences) :=
  view_append (any · fun s => (literal? s).isNone) (· || ·) (fun _ _ => any_append) (fun _ _ => rfl) p q

/-- No two literals stand side by side. -/
def Merged (p : CharPattern) : Prop :=
  p.segments.IsChain fun s t => literal? s = none ∨ literal? t = none

theorem Merged.push (h : p.Merged) (segment : PatternSegment) : (p.push segment).Merged := by
  unfold Merged at *
  cases segment with
  | ref => exact isChain_append.2 ⟨h, .singleton _, by simp [literal?]⟩
  | literal text =>
    obtain ⟨start, last, rfl⟩ | ⟨hEnd, hAdd⟩ := appendText_cases p
    · simpa [CharPattern.push, appendText_literal, isChain_append, literal?] using h
    · simp only [CharPattern.push, hAdd]
      exact isChain_append.2 ⟨h, .singleton _, fun s hs _ _ => .inl (hEnd s hs)⟩

theorem Merged.append (h : p.Merged) (q : CharPattern) : (p.append q).Merged := by
  obtain ⟨segments⟩ := q
  induction segments generalizing p with
  | nil => exact h
  | cons segment segments ih => exact ih (h.push segment)

/-- Joining patterns is associative, joins their texts and their references, and keeps literals apart. -/
theorem append_laws (p q r : CharPattern) :
    (p.append q).append r = p.append (q.append r) ∧
    ((p.append q).text?.isSome ↔ p.text?.isSome ∧ q.text?.isSome) ∧
    (∀ a b, p.text? = some a → q.text? = some b → (p.append q).text? = some (a ++ b)) ∧
    ((p.append q).hasReferences ↔ p.hasReferences ∨ q.hasReferences) ∧
    (p.append q).references = p.references ++ q.references ∧
    (p.Merged → ∀ texts : List String, (texts.foldl appendText (p.append q)).Merged) := by
  refine ⟨append_assoc p q r, ?_, fun a b => text?_append_eq_some, ?_, references_append p q, ?_⟩
  · rw [text?_append]
    cases p.text? <;> cases q.text? <;> simp
  · rw [hasReferences_append, Bool.or_eq_true]
  · intro h texts
    have hBuilt : (texts.map .literal).foldl push (p.append q) = texts.foldl appendText (p.append q) :=
      foldl_map
    exact hBuilt ▸ (h.append q).append ⟨texts.map .literal⟩

theorem append_laws_split :
    let p : CharPattern := ⟨[.literal "a", .ref (.plain "r" none {})]⟩
    p.Merged ∧ (⟨p.segments ++ [.literal "bcd"]⟩ : CharPattern).Merged := by
  intro p
  have hMerged : p.Merged := by simp [p, Merged, literal?]
  exact ⟨hMerged, (append_laws p ⟨[.literal "b", .literal "c"]⟩ ⟨[]⟩).2.2.2.2.2 hMerged ["d"]⟩

end CharPattern

end TemplateCheck
