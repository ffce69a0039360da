import Mathlib.Computability.Language
import TemplateCheck.Pattern.Grammar

/-!
# What binary strings match

A string of bits, hexadecimal digits or octets is a sequence of elements. A literal stands for one such
sequence, a pattern for a language: `?` is any element and `*` any number of elements. The text of a
pattern is read as a list of symbols. Texts without fault are those that symbols can be written as, so the
symbols of two texts one after the other are those of the first followed by those of the second.
-/

namespace TemplateCheck

open List

variable {family : BinaryFamily} {more : List Char}

namespace BinaryFamily

def radix : BinaryFamily → Nat
  | .bit => 2
  | .hex => 16
  | .octet => 256

theorem radix_pos (family : BinaryFamily) : 0 < family.radix := by
  cases family <;> decide

abbrev Element (family : BinaryFamily) := Fin family.radix

def digitValue (c : Char) : Nat :=
  if c ≤ '9' then c.toNat - '0'.toNat
  else if c ≤ 'F' then c.toNat - 'A'.toNat + 10
  else c.toNat - 'a'.toNat + 10

def element (family : BinaryFamily) (value : Nat) : family.Element :=
  ⟨value % family.radix, Nat.mod_lt value family.radix_pos⟩

def elements (family : BinaryFamily) : List Char → List family.Element
  | [] => []
  | c :: rest =>
    match family, rest with
    | .octet, d :: rest => octet.element (16 * digitValue c + digitValue d) :: octet.elements rest
    | family, rest => family.element (digitValue c) :: family.elements rest

structure Spells (family : BinaryFamily) (text : List Char) : Prop where
  digits : ∀ c ∈ text, family.isDigit c
  even : family = .octet → text.length % 2 = 0

def sequencesOf (family : BinaryFamily) (length : Nat) : Language family.Element := {w | w.length = length}

inductive Symbol (family : BinaryFamily) where
  | exactly (element : family.Element)
  /-- `?` -/
  | any
  /-- `*` -/
  | many

namespace Symbol

def language : family.Symbol → Language family.Element
  | .exactly element => {[element]}
  | .any => family.sequencesOf 1
  | .many => ⊤

def sequence (symbols : List family.Symbol) : Language family.Element := (symbols.map language).prod

end Symbol

variable {c : Char} {rest : List Char}

def symbols (family : BinaryFamily) : List Char → List family.Symbol
  | [] => []
  | '*' :: rest => .many :: family.symbols rest
  | '?' :: rest => .any :: family.symbols rest
  | c :: rest =>
    match family, rest with
    | .octet, d :: rest =>
      .exactly (octet.element (16 * digitValue c + digitValue d)) :: octet.symbols rest
    | family, rest => .exactly (family.element (digitValue c)) :: family.symbols rest

def language (family : BinaryFamily) (text : List Char) : Language family.Element :=
  Symbol.sequence (family.symbols text)

inductive Written : (family : BinaryFamily) → List Char → List family.Symbol → Prop where
  | nil {family : BinaryFamily} : Written family [] []
  | many {family : BinaryFamily} {rest : List Char} {symbols : List family.Symbol} :
      Written family rest symbols → Written family ('*' :: rest) (.many :: symbols)
  | any {family : BinaryFamily} {rest : List Char} {symbols : List family.Symbol} :
      Written family rest symbols → Written family ('?' :: rest) (.any :: symbols)
  | digit {family : BinaryFamily} {c : Char} {rest : List Char} {symbols : List family.Symbol} :
      family ≠ .octet → family.isDigit c → Written family rest symbols →
      Written family (c :: rest) (.exactly (family.element (digitValue c)) :: symbols)
  | pair {c d : Char} {rest : List Char} {symbols : List octet.Symbol} :
      isHexDigit c → isHexDigit d → Written .octet rest symbols →
      Written .octet (c :: d :: rest) (.exactly (octet.element (16 * digitValue c + digitValue d)) :: symbols)

variable {text : List Char}

theorem mem_sequencesOf {w : List family.Element} {n : Nat} : w ∈ family.sequencesOf n ↔ w.length = n := Iff.rfl

theorem isHexDigit_of_isDigit (h : family.isDigit c) : isHexDigit c := by
  cases family with
  | bit =>
    simp only [isDigit, Bool.or_eq_true, decide_eq_true_eq] at h
    obtain rfl | rfl := h <;> decide
  | hex | octet => exact h

theorem ne_wildcard (h : isHexDigit c) : c ≠ '*' ∧ c ≠ '?' := by
  constructor <;>
  · rintro rfl
    exact absurd h (by decide)

theorem symbols_digit (hFamily : family ≠ .octet) (h : family.isDigit c) :
    family.symbols (c :: rest) = .exactly (family.element (digitValue c)) :: family.symbols rest := by
  obtain ⟨hStar, hMark⟩ := ne_wildcard (isHexDigit_of_isDigit h)
  rw [symbols.eq_def]
  grind

theorem symbols_pair {d : Char} (h : isHexDigit c) : octet.symbols (c :: d :: rest) =
      .exactly (octet.element (16 * digitValue c + digitValue d)) :: octet.symbols rest := by
  obtain ⟨hStar, hMark⟩ := ne_wildcard h
  rw [symbols.eq_def]
  grind

namespace Written

variable {symbols symbols' : List family.Symbol}

theorem symbols_eq (h : Written family text symbols) : family.symbols text = symbols := by
  induction h with
  | nil => rfl
  | many _ ih | any _ ih => rw [BinaryFamily.symbols, ih]
  | digit hFamily hDigit _ ih => rw [symbols_digit hFamily hDigit, ih]
  | pair hFirst _ _ ih => rw [symbols_pair hFirst, ih]

theorem append (h : Written family text symbols) (h' : Written family more symbols') :
    Written family (text ++ more) (symbols ++ symbols') := by
  induction h with
  | nil => exact h'
  | many _ ih => exact .many (ih h')
  | any _ ih => exact .any (ih h')
  | digit hFamily hDigit _ ih => exact .digit hFamily hDigit (ih h')
  | pair hFirst hSecond _ ih => exact .pair hFirst hSecond (ih h')

theorem exists_many (h : Written family text symbols) (hLast : text.getLast? = some '*') :
    ∃ init, symbols = init ++ [.many] := by
  have hRest : ∀ {c rest}, c ≠ '*' → (c :: rest).getLast? = some '*' → rest.getLast? = some '*' := by
    intro c rest hNe hLast
    cases rest with
    | nil => exact absurd (Option.some.inj hLast) hNe
    | cons d rest => exact hLast
  induction h with
  | nil => cases hLast
  | @many family rest symbols hWritten ih =>
    cases rest with
    | nil =>
      cases hWritten
      exact ⟨[], rfl⟩
    | cons c rest =>
      obtain ⟨init, rfl⟩ := ih hLast
      exact ⟨.many :: init, rfl⟩
  | any _ ih =>
    obtain ⟨init, rfl⟩ := ih (hRest (by decide) hLast)
    exact ⟨.any :: init, rfl⟩
  | digit _ hDigit _ ih =>
    obtain ⟨init, rfl⟩ := ih (hRest (ne_wildcard (isHexDigit_of_isDigit hDigit)).1 hLast)
    exact ⟨_ :: init, rfl⟩
  | pair hFirst hSecond _ ih =>
    obtain ⟨init, rfl⟩ := ih (hRest (ne_wildcard hSecond).1 (hRest (ne_wildcard hFirst).1 hLast))
    exact ⟨_ :: init, rfl⟩

theorem replicate (n : Nat) : Written family (replicate n '?') (replicate n .any) := by
  induction n with
  | zero => exact .nil
  | succ n ih => exact .any ih

theorem digitsFault?_eq_none (hFamily : family ≠ .octet) (h : Written family text symbols) :
    family.digitsFault? text = none := by
  induction h with
  | nil => rfl
  | many _ ih | any _ ih => simpa [digitsFault?, isWildcard] using ih hFamily
  | digit _ hDigit _ ih => simpa [digitsFault?, hDigit] using ih hFamily
  | pair => exact absurd rfl hFamily

theorem octetsFault?_eq_none (hFamily : family = .octet) (h : Written family text symbols) :
    octetsFault? false text = none := by
  induction h with
  | nil => rfl
  | many _ ih | any _ ih => exact ih hFamily
  | digit hOther => exact absurd hFamily hOther
  | pair hFirst hSecond _ ih => simpa [octetsFault?, hFirst, hSecond] using ih rfl

end Written

theorem written_of_digitsFault? (hFamily : family ≠ .octet)
    (h : family.digitsFault? text = none) : ∃ symbols, Written family text symbols := by
  induction text with
  | nil => exact ⟨[], .nil⟩
  | cons c rest ih =>
    rw [digitsFault?] at h
    split at h
    · rename_i hLegal
      obtain ⟨symbols, hRest⟩ := ih h
      simp only [isWildcard, Bool.or_eq_true, decide_eq_true_eq] at hLegal
      obtain hDigit | rfl | rfl := hLegal
      · exact ⟨_, .digit hFamily hDigit hRest⟩
      · exact ⟨_, .any hRest⟩
      · exact ⟨_, .many hRest⟩
    · cases h

theorem exists_of_octetsFault?_true (h : octetsFault? true text = none) :
    ∃ d rest, text = d :: rest ∧ isHexDigit d ∧ octetsFault? false rest = none := by
  cases text with
  | nil => cases h
  | cons d rest =>
    rw [octetsFault?] at h
    split at h
    · exact ⟨d, rest, rfl, ‹_›, h⟩
    · split at h <;> cases h

theorem written_of_octetsFault? (h : octetsFault? false text = none) : ∃ symbols, Written .octet text symbols := by
  induction hLength : text.length using Nat.strongRecOn generalizing text with
  | ind n ih =>
    cases text with
    | nil => exact ⟨[], .nil⟩
    | cons c rest =>
      simp only [length_cons] at hLength
      rw [octetsFault?] at h
      split at h
      · rename_i hFirst
        obtain ⟨d, rest, rfl, hSecond, hRest⟩ := exists_of_octetsFault?_true h
        obtain ⟨symbols, hRest⟩ := ih rest.length (by simp_all; omega) hRest rfl
        exact ⟨_, .pair hFirst hSecond hRest⟩
      · split at h
        · cases h
        · rename_i hWildcard
          obtain ⟨symbols, hRest⟩ := ih rest.length (by omega) h rfl
          simp only [isWildcard, Bool.not_eq_true', Bool.not_eq_false, Bool.or_eq_true, decide_eq_true_eq] at hWildcard
          obtain rfl | rfl := hWildcard
          · exact ⟨_, .any hRest⟩
          · exact ⟨_, .many hRest⟩

/-- A text without fault is how its symbols are written. -/
theorem patternFault?_eq_none_iff {text : String} :
    family.patternFault? text = none ↔ Written family text.toList (family.symbols text.toList) := by
  have hIff : family.patternFault? text = none ↔ ∃ symbols, Written family text.toList symbols := by
    cases family with
    | octet => exact ⟨written_of_octetsFault?, fun ⟨_, h⟩ => h.octetsFault?_eq_none rfl⟩
    | _ => exact ⟨written_of_digitsFault? nofun, fun ⟨_, h⟩ => h.digitsFault?_eq_none nofun⟩
  rw [hIff]
  constructor
  · rintro ⟨symbols, h⟩
    rwa [h.symbols_eq]
  · exact fun h => ⟨_, h⟩

namespace Symbol

variable {symbols symbols' : List family.Symbol}

theorem sequence_cons (first : family.Symbol) : sequence (first :: symbols) = first.language * sequence symbols :=
  prod_cons

theorem sequence_append : sequence (symbols ++ symbols') = sequence symbols * sequence symbols' := by
  simp only [sequence, map_append, prod_append]

theorem sequence_exactly (elements : List family.Element) : sequence (elements.map .exactly) = {elements} := by
  induction elements with
  | nil => rfl
  | cons first elements ih =>
    rw [map_cons, sequence_cons, ih]
    exact Set.image2_singleton

theorem sequencesOf_succ (n : Nat) : family.sequencesOf 1 * family.sequencesOf n = family.sequencesOf (n + 1) := by
  ext w
  rw [Language.mem_mul]
  constructor
  · rintro ⟨first, hFirst, rest, hRest, rfl⟩
    rw [mem_sequencesOf] at *
    rw [length_append, hFirst, hRest, Nat.add_comm]
  · intro hLength
    cases w with
    | nil => cases hLength
    | cons first rest => exact ⟨[first], rfl, rest, Nat.succ.inj hLength, rfl⟩

theorem sequence_replicate_any (n : Nat) :
    sequence (replicate n (.any : family.Symbol)) = family.sequencesOf n := by
  induction n with
  | zero =>
    ext w
    exact length_eq_zero_iff.symm
  | succ n ih =>
    rw [replicate_succ, sequence_cons, ih]
    exact sequencesOf_succ n

theorem top_mul_top : (⊤ * ⊤ : Language family.Element) = ⊤ := by
  ext w
  exact ⟨fun _ => trivial, fun _ => Language.mem_mul.2 ⟨[], trivial, w, trivial, rfl⟩⟩

theorem sequence_many_mul_top : sequence (symbols ++ [.many]) * ⊤ = sequence (symbols ++ [.many]) := by
  have hMany : sequence [(.many : family.Symbol)] = ⊤ := prod_singleton
  rw [sequence_append, hMany, mul_assoc, top_mul_top]

end Symbol

theorem Written.language_eq {symbols : List family.Symbol} (h : Written family text symbols) :
    family.language text = Symbol.sequence symbols := by
  rw [language, h.symbols_eq]

theorem Spells.written (h : family.Spells text) : Written family text ((family.elements text).map .exactly) := by
  fun_induction elements family text with
  | case1 => exact .nil
  | case2 c d rest ih =>
    have hRest : octet.Spells rest := by
      refine ⟨fun e hMem => h.digits e (by simp [hMem]), fun _ => ?_⟩
      have := h.even rfl
      simp only [length_cons] at this
      omega
    exact .pair (h.digits c (by simp)) (h.digits d (by simp)) (ih hRest)
  | case3 c family rest hPair ih =>
    have hFamily : family ≠ .octet := by
      rintro rfl
      have := h.even rfl
      cases rest with
      | nil => cases this
      | cons d rest => exact hPair d rest rfl rfl
    have hRest : family.Spells rest :=
      ⟨fun e hMem => h.digits e (by simp [hMem]), fun hOctet => absurd hOctet hFamily⟩
    exact .digit hFamily (h.digits c (by simp)) (ih hRest)

theorem Spells.language_eq (h : family.Spells text) : family.language text = {family.elements text} := by
  rw [h.written.language_eq, Symbol.sequence_exactly]

theorem Spells.append (h : family.Spells text) (h' : family.Spells more) : family.Spells (text ++ more) where
  digits c hMem := (mem_append.1 hMem).elim (h.digits c) (h'.digits c)
  even hFamily := by
    have hEven := h.even hFamily
    have hEven' := h'.even hFamily
    rw [length_append]
    omega

theorem Spells.language_append (h : family.Spells text) (h' : family.Spells more) :
    family.language (text ++ more) = family.language text * family.language more := by
  rw [(h.written.append h'.written).language_eq, Symbol.sequence_append, ← h.written.language_eq,
    ← h'.written.language_eq]

end BinaryFamily

end TemplateCheck
