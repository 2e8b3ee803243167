import Conch.Program.Files
import Conch.Program.Script

/-!
# The installed programs

What a process does, from the start of its program or from where it stands.  A program that
copies goes on as itself after every block, so each part of its work is finite.

## Main definitions

* `Conch.Program.start` — a program with its arguments.
* `Conch.Program.run` — a program from where it stands.
-/

set_option autoImplicit false

namespace Conch.Program

open Act (ask become)
open Text (Octets)

/-- How much a program reads at once. -/
def blockSize : Nat := 65536

/-- How much `head` reads at once. -/
def headBlock : Nat := 8192

/-! ## Times and names -/

/-- The microseconds that a time in seconds stands for. -/
def microseconds? (arg : Octets) : Option Nat :=
  let cs := arg.toList
  let whole := cs.takeWhile Char.isDigit
  let (part, rest) := match cs.drop whole.length with
    | '.' :: more => let ds := more.takeWhile Char.isDigit; (ds, more.drop ds.length)
    | more => ([], more)
  let unit := match rest with
    | [] | ['s'] => some 1
    | ['m'] => some 60
    | ['h'] => some 3600
    | ['d'] => some 86400
    | _ => none
  if whole.isEmpty && part.isEmpty then none
  else unit.map fun u =>
    let micros := (part ++ List.replicate (6 - part.length) '0').take 6
    (((Text.digitsValue? whole).getD 0) * 1000000 + (Text.digitsValue? micros).getD 0) * u

/-- The last component of a path without a given ending. -/
def baseName (path ending : Octets) : Octets :=
  let last := (Path.splitSlash path.toList).map String.ofList |>.filter (· ≠ "") |>.getLast?
  match last with
  | none => if path.isEmpty then "" else "/"
  | some name =>
    if name ≠ ending && name.endsWith ending then
      String.ofList (name.toList.take (name.length - ending.length))
    else name

/-- The path without its last component. -/
def dirName (path : Octets) : Octets :=
  let trimmed := path.toList.reverse.dropWhile (· = '/')
  let above := (trimmed.dropWhile (· ≠ '/')).dropWhile (· = '/')
  if !above.isEmpty then String.ofList above.reverse
  else if path.startsWith "/" then "/" else "."

/-! ## Reading operands -/

/-- What `head` and `tail` are asked for. -/
structure Extent where
  count : Nat
  /-- Bytes count, not lines. -/
  bytes : Bool
  /-- Count from the start, for `tail`. -/
  fromStart : Bool
  /-- Count from the end, for `head`. -/
  fromEnd : Bool
  operands : List Octets

/-- Ten lines. -/
def Extent.usual : Extent := ⟨10, false, false, false, []⟩

/-- The extent with another count. -/
def Extent.recount (e : Extent) (bytes : Bool) (n : List Char) : Option Extent := do
  let plus := n.head? = some '+'
  let minus := n.head? = some '-'
  let digits := if plus || minus then n.tail else n
  return { e with
    count := ← Text.digitsValue? digits, bytes, fromStart := plus, fromEnd := minus }

/-- The extent that arguments ask for; nothing if they are malformed. -/
def Extent.ofArgs : List Octets → Extent → Option Extent
  | [], e => some e
  | "-n" :: n :: rest, e => do ofArgs rest (← e.recount false n.toList)
  | "-c" :: n :: rest, e => do ofArgs rest (← e.recount true n.toList)
  | arg :: rest, e => match arg.toList with
    | '-' :: 'n' :: n => do ofArgs rest (← e.recount false n)
    | '-' :: 'c' :: n => do ofArgs rest (← e.recount true n)
    | '-' :: d :: ds => do ofArgs rest (← e.recount false (d :: ds))
    | _ => ofArgs rest { e with operands := e.operands ++ [arg] }

/-- The argument that should be a number and is not one. -/
def Extent.culprit : List Octets → Octets
  | [] => ""
  | arg :: rest => match arg.toList with
    | ['-', 'n'] | ['-', 'c'] => rest.headD ""
    | '-' :: 'n' :: n | '-' :: 'c' :: n => String.ofList n
    | _ => culprit rest

/-- The front of a text. -/
def Extent.front (e : Extent) (text : Octets) : Octets :=
  let kept (all : Nat) := if e.fromEnd then all - e.count else e.count
  if e.bytes then String.ofList (text.toList.take (kept text.length))
  else headText (kept (lines text).length) text

/-- The end of a text. -/
def Extent.rear (e : Extent) (text : Octets) : Octets :=
  if e.bytes then
    let cs := text.toList
    String.ofList (cs.drop (if e.fromStart then e.count - 1 else cs.length - e.count))
  else tailText e.count e.fromStart text

/-- What a file operand holds, or why it cannot be read. -/
def readOperand (t : FileTree) (c : Context) (arg : Octets) : Except Errno Octets := do
  let i ← t.find (c.path arg) true
  match t.nodes[i]? with
  | some (.directory ..) => .error .isDirectory
  | _ => return t.contents i

/-- A program without operands, or whose only operand is a dash, reads its standard input. -/
def readsInput (operands : List Octets) : Bool := operands.isEmpty || operands = ["-"]

/-! ## Programs that work on a whole text -/

/-- The columns of `wc` that its options ask for. -/
def countColumns (letters : List Char) (text : Octets) : List Nat :=
  let (lines, words, bytes) := counts text
  let all := letters.isEmpty
  (if all || letters.contains 'l' then [lines] else []) ++
    (if all || letters.contains 'w' then [words] else []) ++
    (if all || letters.contains 'c' then [bytes] else []) ++
    (if letters.contains 'm' then [bytes] else [])

/-- A line of `wc`. -/
def countLine (width : Nat) (columns : List Nat) (name : Octets) : Octets :=
  let shown := columns.map fun n => padLeft width (toString n)
  " ".intercalate shown ++ (if name.isEmpty then "" else " " ++ name) ++ "\n"

/-- The width of the columns of `wc`: a single number takes no more than it needs, a text from a
regular file as much as its size, and any other seven characters. -/
def countWidth (columns : List Nat) (regular : Bool) (size : Nat) : Nat :=
  if columns.length = 1 then 1 else if regular then (toString size).length else 7

/-- What a program that reads everything writes about its standard input.  `regular` tells that
it reads a regular file. -/
def digest (name : String) (args : List Octets) (regular : Bool) (text : Octets) : Output :=
  let (letters, _) := options args
  match name with
  | "sort" => ⟨sortText ⟨letters.contains 'r', letters.contains 'n', letters.contains 'u'⟩ text,
      "", 0⟩
  | "wc" =>
    let columns := countColumns letters text
    ⟨countLine (countWidth columns regular text.length) columns "", "", 0⟩
  | "tail" => match Extent.ofArgs args .usual with
    | some e => ⟨e.rear text, "", 0⟩
    | none => ⟨"", "", 1⟩
  | "head" => ⟨((Extent.ofArgs args .usual).getD .usual).front text, "", 0⟩
  | _ => ⟨text, "", 0⟩

/-- The lines of `wc` about files in turn; a directory counts as empty. -/
def countEach (c : Context) (t : FileTree) (line : Octets → Octets → Octets) (status : Int) :
    List Octets → Act Int
  | [] => pure status
  | arg :: rest => do
    let (shown, status) ← match readOperand t c arg with
      | .ok data => pure (line data arg, status)
      | .error e => do
        warn c (c.called ++ ": " ++ Quotation.needed arg ++ ": " ++ e.describe ++ "\n")
        pure (if e = .isDirectory then line "" arg else "", 1)
    match ← put c writeError 1 shown with
    | some failed => return failed
    | none => countEach c t line status rest

/-- `wc` of files, with a sum if there are several. -/
def countFiles (c : Context) (t : FileTree) (letters : List Char) (operands : List Octets) :
    Act Int := do
  let all := String.join (operands.filterMap fun arg => (readOperand t c arg).toOption)
  let regular := operands.all fun arg => !t.pathIsDirectory (c.path arg)
  let width := if operands.length = 1 then
      countWidth (countColumns letters all) regular all.length
    else max (if regular then 1 else 7) (toString all.length).length
  let line (data name : Octets) := countLine width (countColumns letters data) name
  let status ← countEach c t line 0 operands
  if operands.length = 1 then return status
  else emit c ⟨line all "total", "", status⟩

/-- What `head` or `tail` write about files in turn.  Several files get headings, and `heading`
starts the next one. -/
def cutEach (c : Context) (t : FileTree) (cut : Octets → Octets) (headed : Bool)
    (heading : Octets) (status : Int) : List Octets → Act Int
  | [] => pure status
  | arg :: rest => do
    let title := if headed then heading ++ "==> " ++ arg ++ " <==\n" else ""
    match readOperand t c arg with
    | .ok data => match ← put c writeError 1 (title ++ cut data) with
      | some failed => return failed
      | none => cutEach c t cut headed "\n" status rest
    | .error .isDirectory =>
      let _ ← put c writeError 1 title
      warn c (c.called ++ ": error reading " ++ Quotation.always arg ++ ": " ++
        Errno.isDirectory.describe ++ "\n")
      cutEach c t cut headed "\n" 1 rest
    | .error e =>
      warn c (c.called ++ ": cannot open " ++ Quotation.always arg ++ " for reading: " ++
        e.describe ++ "\n")
      cutEach c t cut headed heading 1 rest

/-! ## The programs -/

/-- `cat`: copy the operands in turn; a dash stands for the standard input. -/
def copyAll (c : Context) (status : Int) : List Octets → Act Int
  | [] => pure status
  | "-" :: rest => become (.program c (.copy rest status))
  | arg :: rest => do
    let v ← ask .view
    match readOperand v.tree c arg with
    | .ok data => match ← put c writeError 1 data with
      | some failed => return failed
      | none => copyAll c status rest
    | .error e =>
      warn c (c.called ++ ": " ++ Quotation.needed arg ++ ": " ++ e.describe ++ "\n")
      copyAll c 1 rest

/-- The entry sets the variable with this name. -/
def setsVariable (name entry : Octets) : Bool := (name ++ "=").toList.isPrefixOf entry.toList

/-- Put an entry in place of the first one that sets the same variable, or behind all entries. -/
def putEntry (name entry : Octets) : List Octets → List Octets
  | [] => [entry]
  | e :: rest =>
    if setsVariable name e then entry :: rest else e :: putEntry name entry rest

/-- `env`: change variables, and list them or run a program.  The list keeps the order in which
variables were set. -/
def changeEnv (c : Context) (env : List Octets) : List Octets → Act Int
  | "-i" :: rest => changeEnv c [] rest
  | "-u" :: name :: rest => changeEnv c (env.filter (!setsVariable name ·)) rest
  | [] => emitOr c 125 ⟨unlines env, "", 0⟩
  | arg :: rest => match Name.splitAtEquals arg with
    | some (name, _) => changeEnv c (putEntry name arg env) rest
    | none => do
      let v ← ask .view
      match resolve v.tree true c.cwd env (arg :: rest) with
      | .ok image => become (.program { c with argv := image.argv, env } (.start image.name))
      | .error e =>
        let hint := if e = .os .noEntry && arg.contains ' ' then
            "\n" ++ c.called ++ ": use -[v]S to pass options in shebang lines"
          else ""
        emit c (.failure (c.called ++ ": " ++ Quotation.plain arg ++ ": " ++ e.reason ++ hint)
          (if e = .os .noEntry then 127 else 126))

/-- `expr`: the value of an expression. -/
def evaluate (c : Context) : Output :=
  if c.args.isEmpty then { missingOperand c.called "operand" with code := 2 }
  else match Expression.eval c.args with
    | .ok value => ⟨value ++ "\n", "", if Expression.isNull value then 1 else 0⟩
    | .error e => .failure (c.called ++ ": " ++ e.message) 2

/-- `tr`: the table and the characters to drop. -/
def startReplacing (c : Context) : Act Int :=
  match c.args with
  | ["-d", set] => become (.program c (.replacing [] (charSet set)))
  | [a, b] => become (.program c (.replacing (pairUp (charSet a) (charSet b)) []))
  | [a] => emit c (.failure (c.called ++ ": missing operand after " ++ Quotation.plain a ++
      "\nTwo strings must be given when translating.\n" ++ tryHelp c.called) 1)
  | _ => emit c (missingOperand c.called "operand")

/-- `sleep`: let the sum of the times pass. -/
def pause (c : Context) : Act Int :=
  let refuse (what : String) : Act Int :=
    emit c (.failure (c.called ++ ": invalid " ++ what ++ "\n" ++ tryHelp c.called) 1)
  match c.args.findSome? optionLetter?, c.args.find? fun a => (microseconds? a).isNone with
  | some letter, _ => refuse ("option -- '" ++ letter.toString ++ "'")
  | none, some bad => refuse ("time interval " ++ Quotation.plain bad)
  | none, none =>
    if c.args.isEmpty then emit c (missingOperand c.called "operand")
    else do
      ask (.sleep (c.args.foldl (fun n a => n + (microseconds? a).getD 0) 0))
      return 0
where
  /-- The letter behind the dash of an option. -/
  optionLetter? (arg : String) : Option Char := match arg.toList with
    | '-' :: letter :: _ => if letter = '-' then none else some letter
    | _ => none

/-- `kill`: send a signal to processes. -/
def sendSignal (c : Context) : Act Int := do
  match Script.killOperands c.args with
  | .error _ => emit c (.failure (c.called ++ ": not enough arguments") 1)
  | .ok (sig, pids) =>
    let refused ← Script.killAll sig pids
    emit c ⟨"", unlines (refused.map fun (pid, e) =>
      c.called ++ ": sending signal to " ++ toString pid ++ " failed: " ++ e.describe),
      if refused.isEmpty then 0 else 1⟩

/-- `echo`: the arguments, with `-n` without a newline, with `-e` with escapes, and the last of
`-e` and `-E` counts. -/
def echoLine (newline escapes : Bool) : List Octets → Octets
  | [] => if newline then "\n" else ""
  | arg :: args =>
    let letters := arg.toList.tail
    if arg.startsWith "-" && !letters.isEmpty && letters.all (· ∈ ['n', 'e', 'E']) then
      echoLine (newline && !letters.contains 'n')
        (letters.foldl (fun b c => if c = 'e' then true else if c = 'E' then false else b) escapes)
        args
    else
      let text := " ".intercalate (arg :: args)
      let (shown, stopped) := if escapes then unescape true 0 text.toList else (text.toList, false)
      String.ofList shown ++ (if newline && !stopped then "\n" else "")

/-- A program that reads files or its standard input. -/
def filesOr (c : Context) (operands : List Octets) (state : State) (files : FileTree → Act Int) :
    Act Int := do
  if readsInput operands then become (.program c state) else files (← ask .view).tree

/-- `head` and `tail`: files or the standard input, as far as the arguments ask. -/
def cutOr (c : Context) (cut : Extent → Octets → Octets)
    (state : Extent → State) : Act Int :=
  match Extent.ofArgs c.args .usual with
  | some e => filesOr c e.operands (state e) fun t =>
      cutEach c t (cut e) (1 < e.operands.length) "" 0 e.operands
  | none => emit c (.failure (c.called ++ ": invalid number of lines: " ++
      Quotation.plain (Extent.culprit c.args)) 1)

/-- The bytes with a newline at their end, unless there are none. -/
def completed (data : Octets) : Octets :=
  if data.isEmpty || data.endsWith "\n" then data else data ++ "\n"

/-- `sort` of files, which all have to be readable. -/
def sortFiles (c : Context) (t : FileTree) (operands : List Octets) : Act Int :=
  let read := operands.map fun arg => (arg, readOperand t c arg)
  match read.findSome? fun (arg, r) => match r with
    | .ok _ => none
    | .error e => some (arg, e) with
  | some (arg, e) => emit c (.failure (c.called ++
      (if e = .isDirectory then ": read failed: " else ": cannot read: ") ++
      Quotation.needed arg ++ ": " ++ e.describe) 2)
  | none =>
    let texts := read.filterMap fun (_, r) => r.toOption.map completed
    emitOr c 2 (digest "sort" c.args true (String.join texts))

/-- What a program that reads everything does if it cannot read. -/
def unreadable (c : Context) (name : String) (data : Octets) (e : Errno) : Act Int := do
  match name with
  | "sh" => Script.runText c false data (Script.initial (← ask .view).tree c c.called [])
  | "wc" =>
    let o := digest name c.args false ""
    emit c { o with
      err := c.called ++ ": 'standard input': " ++ e.describe ++ "\n", code := 1 }
  | "sort" => emit c (.failure (c.called ++ ": read failed: -: " ++ e.describe) 2)
  | _ => emit c (.failure (c.called ++ ": error reading 'standard input': " ++ e.describe) 1)

/-- `yes`: a block of equal lines, again and again. -/
def startRepeating (c : Context) : Act Int :=
  let line := (if c.args.isEmpty then "y" else " ".intercalate c.args) ++ "\n"
  become (.program c (.repeating (String.join (List.replicate (4096 / line.length + 1) line))))

/-- `printf`: its first argument is the format. -/
def printAll (c : Context) : Act Int :=
  match c.args with
  | [] => emit c (missingOperand c.called "operand")
  | "--" :: fmt :: args => emitLast c 1 (format complaint fmt args)
  | fmt :: args => emitLast c 1 (format complaint fmt args)
where
  /-- What to say about an argument that should be a number. -/
  complaint (arg : Octets) (partly : Bool) : Octets :=
    c.called ++ ": " ++ Quotation.plain arg ++ ": " ++
      (if partly then "value not completely converted" else "expected a numeric value")

/-- Go on if there are operands. -/
def withOperands (c : Context) (operands : List Octets) (act : Act Int) : Act Int :=
  if operands.isEmpty then emit c (missingOperand c.called "operand") else act

/-- A program with its arguments. -/
def start (c : Context) (name : String) : Act Int := do
  let (letters, operands) := options c.args
  let v ← ask .view
  match name with
  | "sh" => Script.start c
  | "cat" => copyAll c 0 (if operands.isEmpty then ["-"] else operands)
  | "tr" => startReplacing c
  | "sort" => filesOr c operands (.gather name "") (sortFiles c · operands)
  | "wc" => filesOr c operands (.gather name "") (countFiles c · letters operands)
  | "head" => cutOr c Extent.front fun e =>
      if e.fromEnd then .gather name "" else .head e.count e.bytes
  | "tail" => cutOr c Extent.rear fun _ => .gather name ""
  | "yes" => startRepeating c
  | "sleep" => pause c
  | "printf" => printAll c
  | "echo" => emit c ⟨echoLine true false c.args, "", 0⟩
  | "pwd" => emit c ⟨Octets.ofText ((v.tree.canonical c.cwd).toOption.getD c.cwd) ++ "\n", "", 0⟩
  | "env" => changeEnv c c.env c.args
  | "touch" =>
    if operands.isEmpty then emit c (missingOperand c.called "file operand")
    else touchAll c 0 operands
  | "mkdir" =>
    withOperands c operands (makeAll c (letters.contains 'p') operands)
  | "rmdir" => withOperands c operands (removeDirs c operands)
  | "rm" =>
    let deep := letters.contains 'r' || letters.contains 'R'
    let force := letters.contains 'f'
    if operands.isEmpty && !force then emit c (missingOperand c.called "operand")
    else removeAll c deep force 0 operands
  | "test" => emit c (Script.condition v c.cwd c.called c.args)
  | "[" =>
    if c.args.getLast? = some "]" then
      emit c (Script.condition v c.cwd c.called c.args.dropLast)
    else emit c (.failure (c.called ++ ": missing ']'") 2)
  | "expr" => emitOr c 3 (evaluate c)
  | "basename" =>
    withOperands c operands <| emit c <| match operands[2]? with
      | some extra => .failure (c.called ++ ": extra operand " ++ Quotation.plain extra ++ "\n" ++
          tryHelp c.called) 1
      | none => ⟨baseName (operands.headD "") (operands.getD 1 "") ++ "\n", "", 0⟩
  | "dirname" =>
    withOperands c operands
      (emit c ⟨unlines (operands.map dirName), "", 0⟩)
  | "ls" => emitLast c 2 (listing v.tree c letters operands)
  | "kill" => sendSignal c
  | "false" => return 1
  | _ => return 0

/-- How `head` reads: no more bytes than it wants, and of a file no more lines.  From a pipe it
takes a block. -/
def headRead (stdin : Source) (n : Nat) (bytes : Bool) : Act (Except Errno Octets) :=
  if bytes then ask (.read stdin (min n headBlock))
  else match stdin with
    | .pipe _ => ask (.read stdin headBlock)
    | _ => ask (.readLine stdin)

/-- A program from where it stands. -/
def run (c : Context) : State → Act Int
  | .start name => start c name
  | .copy operands status => do
    match ← ask (.read c.streams.stdin blockSize) with
    | .ok "" => copyAll c status operands
    | .ok data => match ← put c writeError 1 data with
      | some failed => return failed
      | none => become (.program c (.copy operands status))
    | .error e =>
      warn c (c.called ++ ": -: " ++ e.describe ++ "\n")
      copyAll c 1 operands
  | .replacing table delete => do
    match ← ask (.read c.streams.stdin blockSize) with
    | .ok "" => return 0
    | .ok data => match ← put c writeError 1 (replaceChars table delete data) with
      | some failed => return failed
      | none => become (.program c (.replacing table delete))
    | .error e => emit c (.failure (c.called ++ ": read error: " ++ e.describe) 1)
  | .head 0 _ => return 0
  | .head n bytes => do
    match ← headRead c.streams.stdin n bytes with
    | .ok "" => return 0
    | .ok data =>
      let e : Extent := { Extent.usual with count := n, bytes }
      match ← put c writeError 1 (e.front data) with
      | some failed => return failed
      | none =>
        become (.program c (.head (n - (if bytes then data.length else (counts data).1)) bytes))
    | .error e =>
      emit c (.failure (c.called ++ ": error reading 'standard input': " ++ e.describe) 1)
  | .repeating data => do
    match ← put c "standard output" 1 data with
    | some failed => return failed
    | none => become (.program c (.repeating data))
  | .gather name data => do
    match ← ask (.read c.streams.stdin blockSize) with
    | .ok "" =>
      if name = "sh" then
        Script.runText c false data (Script.initial (← ask .view).tree c c.called [])
      else emit c (digest name c.args (c.streams.stdin matches .file _) data)
    | .ok more => become (.program c (.gather name (data ++ more)))
    | .error e => unreadable c name data e
  | .script body s => Script.runToEnd c true body s

end Conch.Program
