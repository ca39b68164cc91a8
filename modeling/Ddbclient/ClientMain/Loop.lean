import Ddbclient.Client.ToString
import Ddbclient.Lib.Machine

/-!
# The interactive loop

The loop of `main` puts the lines that the line editor returns together to commands and carries the
commands out. One iteration is a step of a machine.
-/

namespace Ddbclient
open Lib Lib.Checked StringUtil

/-- What the program finds outside while it handles a line: the server, the shell, the terminal, and
the elapsed seconds as they are printed. All of it may be different at the next line. -/
structure World where
  run : Bytes → Except Bytes Constant
  system : Bytes → Int
  terminal : Terminal
  seconds : Bytes

/-- What `linenoise` returns, nothing being the null pointer. -/
structure Input where
  line : Option Bytes
  world : World

/-- The bytes that are read at the returned pointer; the loop treats a null pointer as a blank line. -/
def Input.text (input : Input) : Bytes := input.line.getD []

inductive Action where
  | widthQuery (reported : Option CInt)
  | widthSet (argument : Bytes) (width : Option CInt)
  | shell (shellCmd : Bytes)
  | script (cmd : Bytes)
  | exit
  deriving DecidableEq

inductive Event where
  | linenoiseHistoryAdd (line : Bytes)
  | linenoiseHistorySave
  | action (action : Action)
  | print (text : Bytes)
  | close
  deriving DecidableEq

def Event.action? : Event → Option Action
  | .action did => some did
  | _ => none

def actions (events : List Event) : List Action := events.filterMap Event.action?

@[simp] theorem actions_nil : actions [] = [] := rfl

@[simp] theorem actions_cons (event : Event) (events : List Event) :
    actions (event :: events) = event.action?.toList ++ actions events := by
  cases event with
  | action did => rfl
  | _ => rfl

@[simp] theorem actions_append (first second : List Event) :
    actions (first ++ second) = actions first ++ actions second := List.filterMap_append

/-- How the loop ends: at `quit`, or because the process dies of a fault. -/
inductive Ended where
  | left
  | crashed (fault : Fault)
  deriving DecidableEq

/-- What is printed for a command when neither the server nor the rendering of its result throws. -/
def Client.runInteractive (g_display_width : CInt) (world : World) (cmd : Bytes) : Client.Result Bytes := do
  let result ← (world.run cmd).mapError Failure.exception
  let fmtResult ← toString g_display_width world.terminal result
  return fmtResult ++ [newline] ++ bytes "OK. Elapsed: " ++ world.seconds ++ bytes " sec.\n\n"

def quit : Bytes := bytes "quit"

abbrev bang : UInt8 := 33

structure Loop where
  isMultiLine : Bool
  cmd : Bytes
  g_display_width : CInt
  deriving DecidableEq

namespace Loop

def fresh (g_display_width : CInt) : Loop := ⟨false, [], g_display_width⟩

def start : Loop := fresh (int 80)

/-- The last part of the body: `cmd` goes to the shell or to the server, then the loop is reset. -/
def execute (s : Loop) (world : World) : List Event × Next Loop Ended :=
  if s.cmd.head? = some bang then
    let shellCmd := s.cmd.drop 1
    let failed := if world.system shellCmd ≠ 0 then
        [.print (bytes "[" ++ s.cmd ++ bytes "] execute failed.\n\n")]
      else []
    (.action (.shell shellCmd) :: failed ++ [.print [newline]], .again (fresh s.g_display_width))
  else
    match Client.runInteractive s.g_display_width world s.cmd with
    | .ok text => ([.action (.script s.cmd), .print text], .again (fresh s.g_display_width))
    | .error (.exception what) =>
        ([.action (.script s.cmd), .print (bytes "ERROR: " ++ what ++ bytes "\n\n")],
          .again (fresh s.g_display_width))
    | .error (.fault fault) => ([.action (.script s.cmd)], .halt (.crashed fault))

def reported (g_display_width : CInt) : Option CInt :=
  if g_display_width.val = 0 then none else some g_display_width

def isWidthQuery (cmd : Bytes) : Bool := cmd = bytes "\\w" || cmd = bytes "\\width"

def isWidthSetting (cmd : Bytes) : Bool := cmd.take 3 = bytes "\\w "

/-- What is done with a command that has been read completely. The width commands leave `isMultiLine`
and `cmd` as they are. -/
def dispatch (s : Loop) (world : World) : List Event × Next Loop Ended :=
  if isWidthQuery s.cmd then
    ([.action (.widthQuery (reported s.g_display_width)),
      .print (bytes "Current display width: " ++
        ((reported s.g_display_width).elim (bytes "Auto") fun width => decimal width.val) ++ [newline])],
      .again s)
  else if isWidthSetting s.cmd then
    let argument := s.cmd.drop 3
    match stoi argument with
    | some width =>
        ([.action (.widthSet argument (some width)),
          .print (bytes "Display width set to " ++ decimal width.val ++ [newline])],
          .again { s with g_display_width := width })
    | none => ([.action (.widthSet argument none), .print (bytes "Invalid width.\n")], .again s)
  else s.execute world

def step (s : Loop) (input : Input) : List Event × Next Loop Ended :=
  let lineStr := input.text
  if lineStr = [] then ([], .again s)
  else if lineStr = quit then
    ([.linenoiseHistoryAdd lineStr, .linenoiseHistorySave, .action .exit, .print (bytes "Bye.\n")], .halt .left)
  else
    let endWithBackslash := endsWith lineStr [backslash]
    let (events, next) : List Event × Next Loop Ended :=
      if s.isMultiLine && endWithBackslash then
        ([], .again { s with cmd := s.cmd ++ lineStr.take (lineStr.length - 1) })
      else if s.isMultiLine && !endWithBackslash then
        { s with cmd := s.cmd ++ lineStr }.dispatch input.world
      else if !s.isMultiLine && endWithBackslash then
        ([], .again { s with isMultiLine := true, cmd := lineStr.take (lineStr.length - 1) })
      else { s with cmd := lineStr }.dispatch input.world
    (.linenoiseHistoryAdd lineStr :: events, next)

end Loop

def machine : Machine Loop Input Event Ended := ⟨Loop.step⟩

end Ddbclient
