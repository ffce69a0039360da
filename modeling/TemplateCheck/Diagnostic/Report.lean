import TemplateCheck.Diagnostic.Problem
import TemplateCheck.Tracked

/-!
# Diagnostics and the report

A report collects diagnostics in the order they are found and never loses one. It also tracks where
the check currently is: every diagnostic records the contexts that were open when it was made,
outermost first.
-/

namespace TemplateCheck

inductive Context where
  | listItem (position : Nat)
  | application
  | decodingTarget
  | field (category name : String)
  | parameter (name : String)
  | component (position : Nat)
  | arrayElement (index : Int)
  | listElement (position : Nat) (list : String)
  | concatenation
  | firstOperand
  | secondOperand
  | given (text : String)
deriving DecidableEq, Repr, Inhabited

def Context.text : Context → String
  | .listItem position => "In list item " ++ toString position
  | .application => "In `apply()' operation"
  | .decodingTarget => "In decoding target"
  | .field category name => "In template for " ++ category ++ " field " ++ quoted name
  | .parameter name => "In template for signature parameter " ++ quoted name
  | .component position => "In component " ++ toString position
  | .arrayElement index => "In array element " ++ toString index
  | .listElement position list => "In element " ++ toString position ++ " of " ++ list
  | .concatenation => "In template concatenation"
  | .firstOperand => "In first operand"
  | .secondOperand => "In second operand"
  | .given text => text

inductive Warning where
  | redundantLength
  | complementMatchesNothing
  | supersetIgnoresAny
  | subsetMatchesAll
  | uselessArrayLength
  | unknownArraySize
  | inadequateRestriction (kind reference : String)
  | reported (text : String)
deriving DecidableEq, Repr, Inhabited

def Warning.message : Warning → String
  | .redundantLength => "Redundant usage of length restriction with `omit'"
  | .complementMatchesNothing =>
    "`*' in complemented list. This template will not match anything"
  | .supersetIgnoresAny => "`*' in superset has no effect during matching"
  | .subsetMatchesAll => "`*' in subset. This template will match everything"
  | .uselessArrayLength => "Length restriction is useless for an array template"
  | .unknownArraySize =>
    "The size of template cannot be resolved so it could not be compared to the array size"
  | .inadequateRestriction kind reference =>
    "Inadequate restriction on the referenced " ++ kind ++ " " ++ quoted reference ++
      ", this may cause a dynamic test case error at runtime"
  | .reported text => text

inductive Note where
  | validFields (names : List String)
  | validAlternatives (names : List String)
  | fieldGivenHere (name : String)
  | parameterGivenHere (name : String)
  | templateIsHere
  | definitionIsHere (kind : String)
  | reported (text : String)
deriving DecidableEq, Repr, Inhabited

def Note.message : Note → String
  | .validFields names => "Valid field names are: " ++ ", ".intercalate (names.map quoted)
  | .validAlternatives names => "Valid alternatives are: " ++ ", ".intercalate (names.map quoted)
  | .fieldGivenHere name => "Field " ++ quoted name ++ " is already given here"
  | .parameterGivenHere name => "Parameter " ++ quoted name ++ " is already given here"
  | .templateIsHere => "Referenced template is here"
  | .definitionIsHere kind => "Referenced " ++ kind ++ " is here"
  | .reported text => text

inductive Finding where
  | error (problem : Problem)
  | warning (warning : Warning)
  | note (note : Note)
deriving DecidableEq, Repr, Inhabited

namespace Finding

def isError : Finding → Bool
  | .error _ => true
  | _ => false

def isWarning : Finding → Bool
  | .warning _ => true
  | _ => false

def isNote : Finding → Bool
  | .note _ => true
  | _ => false

def severity : Finding → String
  | .error _ => "error"
  | .warning _ => "warning"
  | .note _ => "note"

def message : Finding → String
  | .error p => p.message
  | .warning w => w.message
  | .note n => n.message

end Finding

structure Diagnostic where
  finding : Finding
  span : Span
  context : List Context
deriving DecidableEq, Repr, Inhabited

def Diagnostic.text (d : Diagnostic) : String :=
  d.span.text ++ ": " ++ d.finding.severity ++ ": " ++
    (d.context.map fun c => c.text ++ ": ").foldl (· ++ ·) "" ++ d.finding.message

structure Report where
  diagnostics : List Diagnostic := []
  /-- Open contexts, outermost first. -/
  context : List Context := []
  errors : Nat := 0
  warnings : Nat := 0
deriving DecidableEq, Repr, Inhabited

namespace Report

def add (r : Report) (span : Span) (finding : Finding) : Report where
  diagnostics := r.diagnostics ++ [⟨finding, span, r.context⟩]
  context := r.context
  errors := r.errors + if finding.isError then 1 else 0
  warnings := r.warnings + if finding.isWarning then 1 else 0

def enter (r : Report) (c : Context) : Report := { r with context := r.context ++ [c] }

def leave (r : Report) : Report := { r with context := r.context.dropLast }

def leaveAll (r : Report) : Report := { r with context := [] }

def contains (part : List Char) : List Char → Bool
  | [] => part.isEmpty
  | c :: rest => part.isPrefixOf (c :: rest) || contains part rest

def mentions (r : Report) (text : String) : Bool :=
  r.diagnostics.any fun d => contains text.toList d.finding.message.toList

def text (r : Report) : String :=
  (r.diagnostics.map fun d => d.text ++ "\n").foldl (· ++ ·) ""

@[simp] theorem diagnostics_add (r : Report) (span : Span) (finding : Finding) :
    (r.add span finding).diagnostics = r.diagnostics ++ [⟨finding, span, r.context⟩] := rfl

@[simp] theorem context_add (r : Report) (span : Span) (finding : Finding) :
    (r.add span finding).context = r.context := rfl

@[simp] theorem leave_enter (r : Report) (c : Context) : (r.enter c).leave = r := by
  simp [enter, leave]

/-- The report after any number of findings. They come after the earlier ones, are counted, and lie
in the contexts that were open; those are open still. -/
structure Extends (before after : Report) : Prop where
  context : after.context = before.context
  added : ∃ found, after.diagnostics = before.diagnostics ++ found ∧
    (∀ d ∈ found, before.context <+: d.context) ∧
    after.errors = before.errors + found.countP (·.finding.isError) ∧
    after.warnings = before.warnings + found.countP (·.finding.isWarning)

instance : Course Extends where
  refl r := ⟨rfl, [], by simp⟩
  trans := by
    rintro a b c ⟨hContext, found, hDiagnostics, hOpen, hErrors, hWarnings⟩
      ⟨hContext', found', hDiagnostics', hOpen', hErrors', hWarnings'⟩
    refine ⟨hContext'.trans hContext, found ++ found', ?_, ?_, ?_, ?_⟩
    · rw [hDiagnostics', hDiagnostics, List.append_assoc]
    · intro d hd
      rcases List.mem_append.1 hd with hd | hd
      · exact hOpen d hd
      · exact hContext ▸ hOpen' d hd
    · rw [hErrors', hErrors, List.countP_append, Nat.add_assoc]
    · rw [hWarnings', hWarnings, List.countP_append, Nat.add_assoc]

theorem extends_add (r : Report) (span : Span) (finding : Finding) : r.Extends (r.add span finding) :=
  ⟨rfl, [⟨finding, span, r.context⟩], by simp [add, List.countP_singleton]⟩

theorem Extends.leave {r after : Report} {c : Context} (h : (r.enter c).Extends after) : r.Extends after.leave := by
  obtain ⟨hContext, found, hDiagnostics, hOpen, hErrors, hWarnings⟩ := h
  refine ⟨by simp [Report.leave, hContext, enter], found, hDiagnostics, ?_, hErrors, hWarnings⟩
  exact fun d hd => (List.prefix_append r.context [c]).trans (hOpen d hd)

end Report

end TemplateCheck
