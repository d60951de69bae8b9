import Waymark.Log.Directory
import Waymark.Log.Filter
import Waymark.Text.Quoted

/-!
# Loggers

A logger writes the events that pass its filter to standard error, and on request to a session file
in the log directory as well. Only the first logger of a process gets the events. Times, process
numbers and the place of the directories are left as marks.
-/

namespace Waymark

/-! ## Lines -/

namespace LogLine

def stamp : String := "[TIME]"

def levelColumn (l : Level) : String :=
  String.ofList (List.replicate (5 - l.name.length) ' ') ++ l.name

def color : Level → String
  | .error => "31"
  | .warn => "33"
  | .info => "32"
  | .debug => "34"
  | .trace => "35"

def styled (code text : String) : String := "\x1b[" ++ code ++ "m" ++ text ++ "\x1b[0m"

/-- Characters with which a message could take control of a terminal are spelled out. -/
def harmless (c : Char) : String :=
  match c with
  | '\x1b' => "\\x1b"
  | '\x07' => "\\x07"
  | '\x08' => "\\x08"
  | '\x0c' => "\\x0c"
  | '\x7f' => "\\x7f"
  | _ =>
    if 0x80 ≤ c.toNat && c.toNat ≤ 0x9f then "\\u\x7b" ++ Text.hex c.toNat ++ "\x7d" else c.toString

def message (e : Event) : String := String.join (e.message.toList.map harmless)

def plain (e : Event) : String :=
  stamp ++ " " ++ levelColumn e.level ++ " " ++ e.source.target ++ ": " ++ message e

def colored (e : Event) : String :=
  styled "2" stamp ++ " " ++ styled (color e.level) (levelColumn e.level) ++ " " ++
    styled "2" e.source.target ++ styled "2" ":" ++ " " ++ message e

def chomp (line : List Char) : List Char :=
  if line.getLast? = some '\r' then line.dropLast else line

/-- The lines that a written entry takes. An entry with line breaks in it takes more than one. -/
def lines (entry : String) : List String :=
  (entry.splitOn "\n").map fun l => String.ofList (chomp l.toList)

end LogLine

/-! ## Starting -/

inductive CacheSetting where
  | given
  /-- The home directory, because there is no path or it is not absolute. -/
  | home
  deriving DecidableEq, Repr

inductive Obstacle where
  | cache
  | logs
  deriving DecidableEq, Repr

structure LogSetup where
  colors : Bool
  /-- The filter that was asked for. -/
  level : Option String
  environment : Option String
  toFile : Bool
  cache : CacheSetting
  /-- The log directory beforehand, if there is one. -/
  directory : Option LogDirectory
  obstacle : Option Obstacle
  times : Nat
  /-- Whether another logger was there before. -/
  installed : Bool

structure LogOutcome where
  started : List (Except LogFault Unit)
  stderr : List String
  entries : List String
  written : List String

namespace LogSetup

/-- The filter on standard error. A filter in the environment has to be right as a whole. -/
def filter (s : LogSetup) : LogFilter :=
  match s.level, s.environment.bind LogFilter.parse? with
  | some text, _ => LogFilter.ofText text
  | none, some f => f
  | none, none => [{ limit := some .info }]

def fileFilter : LogFilter := [{ limit := some .debug }]

def sessionName : String := "session-TIME-PID.log"

def sessionPath (s : LogSetup) : String :=
  (match s.cache with
    | .given => "ROOT/cache"
    | .home => "ROOT/home/.cache") ++ "/ast-locator/" ++ sessionName

/-- A session file cannot be opened where a directory on the way is a file. -/
def opened (s : LogSetup) : Except LogFault Unit :=
  if s.toFile && s.obstacle.isSome then .error .notADirectory else .ok ()

def works (s : LogSetup) : Bool := s.opened.isOk

def directoryAfter (s : LogSetup) : LogDirectory :=
  if s.obstacle.isSome then ⟨[]⟩
  else
    let before := s.directory.getD ⟨[]⟩
    if s.toFile && 0 < s.times then
      let (_, d) := before.cleanUp LogDirectory.sessionRetention
      ⟨d.entries ++ [⟨sessionName, .file 0⟩]⟩
    else before

def greeting (s : LogSetup) : List String :=
  ((s.level.map LogFilter.refused).getD []).map
      (fun (p, f) => "ignoring `" ++ p ++ "`: " ++ f.message) ++
    if s.toFile && s.works then ["Logging to file: " ++ Text.quoted s.sessionPath.toList] else []

def run (s : LogSetup) (events : List Event) : LogOutcome :=
  let heard := if s.works && 0 < s.times && !s.installed then events else []
  let line := if s.colors then LogLine.colored else LogLine.plain
  { started := List.replicate s.times s.opened
    stderr :=
      if s.installed then []
      else ((List.replicate s.times s.greeting).flatten ++
        (heard.filter s.filter.passes).map line).flatMap LogLine.lines
    entries := s.directoryAfter.names
    written := if s.toFile then ((heard.filter fileFilter.passes).map LogLine.plain).flatMap LogLine.lines
      else [] }

end LogSetup

end Waymark
