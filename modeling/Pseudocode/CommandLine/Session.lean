import Pseudocode.CommandLine.Repl
import Pseudocode.CommandLine.Response

/-! A whole use of the command line, from its arguments to its end, in a world that is known in
advance: the files, the lines on standard input, and what the host observes during a run. -/
namespace Pseudocode.CommandLine

/-- How a session ends. -/
inductive Ending where
  | status (status : Status)
  | help
  | usage
  | endOfInput
  | unusableName
  | overflow (cause : Overflow)
  deriving DecidableEq, Repr

structure Transcript where
  writes : List Write
  ending : Ending

/-- What a session finds around it; a file that cannot be read has a reason. -/
structure World where
  contents : String → Except String String
  lines : List String
  isTerminal : Bool
  host : Host

/-- Line breaks of any kind as single line feeds. -/
def unifyBreaks : List Char → List Char
  | '\r' :: '\n' :: rest => '\n' :: unifyBreaks rest
  | '\r' :: rest => '\n' :: unifyBreaks rest
  | c :: rest => c :: unifyBreaks rest
  | [] => []

/-- The program text in the contents of a file. -/
def sourceOf (contents : String) : String := String.ofList (unifyBreaks contents.toList)

def greeting : String :=
  "Pseudocode interpreter. Enter a block, then an empty line to run it; 'exit' quits."

def foundInputs (count : Nat) : String := s!"Found {count} INPUT statement(s)"

def inputsPrompt : String := "Enter all input values (comma-separated): "

def unreadableFile (file reason : String) : String := s!"Cannot read {file}: {reason}"

def invalidLimits (count : Nat) : String := s!"Invalid limits: {count} error(s)"

/-- Whether the user is asked for the inputs of a program that has INPUT statements. -/
def Options.asksForInputs (o : Options) (count : Nat) (isTerminal : Bool) : Bool :=
  o.inputs.isNone && count != 0 && !o.check && isTerminal

/-- Checks or runs a text. -/
def Options.respond (o : Options) (host : Host) (inputs : List String) (source : String) :
    Except Overflow Response :=
  if o.check then .ok (o.checkResponse source)
  else
    let settings := (o.settings inputs).toOption.getD {}
    let a := Analysis.ofText settings.limits source
    (a.execute settings host).map fun trace => o.runResponse a trace "0"

/-- Writes, then what comes of a response. -/
def Transcript.conclude (writes : List Write) : Except Overflow Response → Transcript
  | .ok response => ⟨writes ++ response.writes, .status response.status⟩
  | .error cause => ⟨writes, .overflow cause⟩

/-- A session about one file, whose name cannot hold a null character. -/
def fileSession (o : Options) (world : World) (file : String) : Transcript :=
  if file.contains '\x00' then ⟨[], .unusableName⟩
  else match world.contents file with
  | .error reason => ⟨[.errLine (unreadableFile file reason)], .status .misuse⟩
  | .ok contents =>
    let source := sourceOf contents
    let scan := Scan.ofText source
    let logged := o.log [scanLog scan]
    let count := countInputs scan
    if o.asksForInputs count world.isTerminal then
      let asked := logged ++ [.outLine (foundInputs count), .out inputsPrompt]
      match world.lines with
      | [] => ⟨asked, .endOfInput⟩
      | answer :: _ => .conclude asked (o.respond world.host (splitInputs answer) source)
    else .conclude logged (o.respond world.host o.givenInputs source)

/-- A session of blocks typed by the user, from a pending block on. -/
def blockSession (o : Options) (host : Host) : Pending → List String → Transcript
  | pending, [] =>
    let asked := [.out pending.prompt]
    if pending.isEmpty then ⟨asked, .status .fine⟩
    else
      match o.respond host o.givenInputs pending.text with
      | .ok response => ⟨asked ++ response.writes, .status .fine⟩
      | .error cause => ⟨asked, .overflow cause⟩
  | pending, line :: rest =>
    let asked := [.out pending.prompt]
    match LineEffect.of pending line with
    | .exit => ⟨asked, .status .fine⟩
    | .more pending =>
      let t := blockSession o host pending rest
      ⟨asked ++ t.writes, t.ending⟩
    | .skip =>
      let t := blockSession o host [] rest
      ⟨asked ++ t.writes, t.ending⟩
    | .finish text =>
      match o.respond host o.givenInputs text with
      | .error cause => ⟨asked, .overflow cause⟩
      | .ok response =>
        let t := blockSession o host [] rest
        ⟨asked ++ response.writes ++ t.writes, t.ending⟩

/-- A session from its arguments to its end. -/
def session (arguments : List String) (world : World) : Transcript :=
  match Request.ofArguments arguments with
  | .help => ⟨[], .help⟩
  | .misuse => ⟨[], .usage⟩
  | .run o =>
    match o.settings [], o.file with
    | .error count, _ => ⟨[.errLine (invalidLimits count)], .status .misuse⟩
    | .ok _, none | .ok _, some "" =>
      let t := blockSession o world.host [] world.lines
      ⟨.outLine greeting :: t.writes, t.ending⟩
    | .ok _, some file => fileSession o world file

end Pseudocode.CommandLine
