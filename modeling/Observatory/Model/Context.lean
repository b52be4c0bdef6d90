import Mathlib.Data.List.Sort
import Mathlib.Data.Rat.Floor
import Observatory.Data.Delimited
import Observatory.Model.Policy

/-!
# The context assembler

`packages/context_engine/assembler.py`: segments are redacted, untrusted ones are put between
boundary markers, and `assemble` lays out the ones that fit the token budget as one prompt.

`redact` (the default redactor, whose patterns include values read from the environment) and the
`tiktoken` encoding, which may be missing, are parameters.
-/

namespace Observatory

structure ContextSegment where
  segmentType : String
  sourceId : String
  title : String
  content : String
  tokenCount : Int
  relevanceScore : Rat
  freshness : String
  confidence : Rat
  includedReason : String
  containsUntrustedInput : Bool
  redactionCount : Nat
deriving DecidableEq, Repr, Inhabited

def outputReserveTokens : Int := 2048

/-- `SEQUENCE`. -/
def layerSequence : List String :=
  ["system_policy", "task_goal", "conversation_window", "episodic_memory", "semantic_memory",
    "procedural_memory", "memory", "tool_schemas", "untrusted"]

/-- `LAYER_BUDGET_RATIO["untrusted"]`. -/
def untrustedBudgetRatio : Rat := 1 / 4

def untrustedBegin : String := "<<<UNTRUSTED_DATA_BEGIN>>>"

def untrustedEnd : String := "<<<UNTRUSTED_DATA_END>>>"

/-- The two boundary markers. -/
def boundary : Delimited.Delimiters Char where
  opening := untrustedBegin.toList
  closing := untrustedEnd.toList
  apart := by decide
  differ := by decide

/-- `len(_REDACTED_RE.findall(text))` for `<[^>]*REDACTED[^>]*>`: a match begins at a `<` and runs
to the next `>`. -/
def countRedactions : List Char → Nat
  | [] => 0
  | c :: rest =>
    let body := rest.takeWhile (· ≠ '>')
    if c = '<' ∧ body.length < rest.length ∧ occursIn "REDACTED" (String.ofList body) then
      countRedactions (rest.drop (body.length + 1)) + 1
    else countRedactions rest
termination_by cs => cs.length
decreasing_by all_goals simp +arith

/-- `estimate_tokens`. -/
def estimateTokens (tiktoken : Option (String → Nat)) (text : String) : Int :=
  match tiktoken with
  | some encodedLength => max 1 (encodedLength text)
  | none => max 1 (text.length / 4)

structure ContextAssembler where
  maxTokens : Int
  redactor : Option (String → String)
  segments : List ContextSegment

namespace ContextAssembler

/-- `__init__`. -/
def create (maxTokens : Int) (redactor : Option (String → String)) : ContextAssembler :=
  { maxTokens := max (outputReserveTokens + 1024) maxTokens, redactor := redactor, segments := [] }

/-- What `add` is called with. -/
structure Addition where
  segmentType : String
  content : String
  title : String := ""
  sourceId : String := ""
  relevance : Rat := 0
  confidence : Rat := 0
  untrusted : Bool := false
deriving DecidableEq, Repr, Inhabited

def Addition.isUntrusted (a : Addition) : Bool :=
  a.untrusted || ["untrusted", "tool_output", "external_data"].contains a.segmentType

section add

variable (redact : String → String) (tiktoken : Option (String → Nat))

/-- The redactor's `scrub`, or `redact`. -/
def scrub (asm : ContextAssembler) : String → String := asm.redactor.getD redact

/-- The boundary put around untrusted content. -/
def bound (content : String) : String :=
  if occursIn untrustedBegin content then content
  else untrustedBegin ++ "\n" ++ content ++ "\n" ++ untrustedEnd

/-- The segment that `add` appends. -/
def newSegment (asm : ContextAssembler) (now : Time) (a : Addition) : ContextSegment :=
  let scrubbed := asm.scrub redact a.content
  let content := if a.isUntrusted then bound scrubbed else scrubbed
  { segmentType := a.segmentType
    sourceId := a.sourceId
    title := a.title
    content := content
    tokenCount := estimateTokens tiktoken content
    relevanceScore := a.relevance
    freshness := toString (now / 1000)
    confidence := a.confidence
    includedReason := "katman " ++ a.segmentType ++ " -> bütçe kurallı seçim"
    containsUntrustedInput := a.isUntrusted
    redactionCount := countRedactions content.toList }

def add (asm : ContextAssembler) (now : Time) (a : Addition) : ContextAssembler :=
  { asm with segments := asm.segments ++ [asm.newSegment redact tiktoken now a] }

end add

/-- The order of the prompt: the types of `SEQUENCE` first, the others grouped by type and then
sorted by relevance.  A segment keeps its place in `segments`. -/
def allInOrder (segments : List ContextSegment) : List (ContextSegment × Nat) :=
  let indexed := segments.zipIdx
  let sequenced := layerSequence.flatMap fun t => indexed.filter (·.1.segmentType = t)
  let rest := indexed.filter (fun s => !layerSequence.contains s.1.segmentType)
  let types := (rest.map (·.1.segmentType)).eraseDups
  let remaining := types.flatMap fun t => rest.filter (·.1.segmentType = t)
  sequenced ++ remaining.insertionSort fun s s' => s.1.relevanceScore ≥ s'.1.relevanceScore

/-- What the loop of `assemble` carries: the tokens used, the segments taken, and the places of the
segments passed over with the reason written on them. -/
structure Layout where
  used : Int
  untrustedUsed : Int
  ordered : List ContextSegment
  skipped : List (Nat × String)
deriving DecidableEq, Repr, Inhabited

/-- One turn of the loop. -/
def Layout.place (budget untrustedBudget : Int) (l : Layout) (s : ContextSegment × Nat) : Layout :=
  if s.1.containsUntrustedInput ∧ l.untrustedUsed + s.1.tokenCount > untrustedBudget then
    { l with skipped := l.skipped ++ [(s.2, "untrusted katman bütçesi aşımı → atlandı")] }
  else if l.used + s.1.tokenCount > budget ∧
      ¬["system_policy", "task_goal"].contains s.1.segmentType then
    { l with skipped := l.skipped ++ [(s.2, "token bütçesi aşımı → atlandı")] }
  else
    { used := l.used + s.1.tokenCount
      untrustedUsed :=
        if s.1.containsUntrustedInput then l.untrustedUsed + s.1.tokenCount else l.untrustedUsed
      ordered := l.ordered ++ [s.1]
      skipped := l.skipped }

/-- The title line of a segment in the prompt. -/
def heading (s : ContextSegment) : String :=
  "### " ++ s.segmentType ++ (if s.containsUntrustedInput then " [UNTRUSTED]" else "") ++ " (" ++
    s.includedReason ++ ")\n"

def part (s : ContextSegment) : String := heading s ++ s.content

def renderPrompt (ordered : List ContextSegment) : String :=
  String.intercalate "\n\n" (ordered.map part)

def layout (asm : ContextAssembler) : Layout :=
  let budget := asm.maxTokens - outputReserveTokens
  (allInOrder asm.segments).foldl
    (Layout.place budget (budget * untrustedBudgetRatio).floor) ⟨0, 0, [], []⟩

/-- The reasons written on the segments that were passed over. -/
def markSkipped (segments : List ContextSegment) (skipped : List (Nat × String)) :
    List ContextSegment :=
  skipped.foldl (fun segs k => segs.modify k.1 fun s => { s with includedReason := k.2 }) segments

/-- `assemble`: the assembler afterwards, the segments taken and the prompt. -/
def assemble (asm : ContextAssembler) : ContextAssembler × List ContextSegment × String :=
  let l := asm.layout
  ({ asm with segments := markSkipped asm.segments l.skipped }, l.ordered, renderPrompt l.ordered)

end ContextAssembler

end Observatory
