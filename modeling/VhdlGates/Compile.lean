import VhdlGates.Design
import VhdlGates.Phrase.Parser
import VhdlGates.Specification.Document
import VhdlGates.Token.Lexeme

/-! From a source text to a specification, stage by stage, or from a document that holds one. -/
namespace VhdlGates

/-- The tokens of a source text, with a notice of their number. -/
def scan (source : String) : Report (List Token) := do
  let tokens := tokenize source
  Report.note (.tokenized source.utf8ByteSize tokens.length)
  return tokens

/-- The notice that tokens stand after the last phrase, if any of them is more than the end. -/
def SourceFile.trailingNotice? (file : SourceFile) : Option Notice :=
  let count := file.trailing.countP (·.kind != .endOfInput)
  match file.trailing with
  | [] => none
  | token :: _ => if count = 0 then none else some (.trailing count token.position.line)

/-- The phrases that some tokens begin with. What follows them is passed over. -/
def readPhrases (tokens : List Token) : Report (List Phrase) :=
  match parse tokens with
  | .error complaint => Report.fail (.unparsable (complaint.line tokens) complaint)
  | .ok file =>
    ⟨.ok file.phrases, file.trailingNotice?.toList ++ [.parsed file.phrases.length]⟩

/-- The phrases that a source text begins with. -/
def readSource (source : String) : Report (List Phrase) := do
  readPhrases (← scan source)

def compileTokens (config : Config) (tokens : List Token) : Report Specification := do
  synthesize config (← readPhrases tokens)

/-- The specification of the design in a source text. -/
def compile (config : Config) (source : String) : Report Specification := do
  synthesize config (← readSource source)

/-- What is known of a file: its bytes, or why there are none. -/
abbrev FileContents := Except ReadFailure ByteArray

/-- The text of a file. -/
def fileText (path : String) (contents : FileContents) : Report String :=
  match contents with
  | .error failure => Report.fail (.unreadableFile path failure)
  | .ok bytes =>
    match String.fromUTF8? bytes with
    | some text => Report.pure text
    | none => Report.fail (.unreadableFile path .notText)

/-- The specification of the design in a file. -/
def compileFile (config : Config) (path : String) (contents : FileContents) :
    Report Specification := do
  compile config (← fileText path contents)

/-- The specification that a document holds. -/
def loadSpecification (document : String) : Except Fault Specification :=
  match Specification.ofText? document with
  | some specification => .ok specification
  | none => .error .malformedDocument

end VhdlGates
