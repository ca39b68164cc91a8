import Ddbclient.ClientMain.Exit
import Ddbclient.Cmdline.Words
import Ddbclient.CommandHistory

/-!
# The program

`main` from the command line to its end: the options, the connection, a script or the interactive loop, and
the two history files.
-/

namespace Ddbclient
open Lib Lib.Checked Cmdline

/-! ## The command line -/

def setUp : Except Bytes (Parser Scalar) := do
  let parser ← Parser.new.addWithValue .string (bytes "host") 104 (bytes "ip/hostname of server") true (bytes "")
  let parser ← parser.addWithReader .int (bytes "port") 112 (bytes "the port of node") false
    (int 8848) (rangeReader (int 1) (int 65535))
  let parser ← parser.addWithValue .string (bytes "username") 117 (bytes "username") true (bytes "")
  let parser ← parser.addWithValue .string (bytes "password") 80 (bytes "password") true (bytes "")
  let parser ← parser.addWithValue .string (bytes "file") 102 (bytes "filename of the script to be executed") false
    (bytes "")
  let parser ← parser.addWithValue .string (bytes "script") 115 (bytes "the script to execute") false (bytes "")
  parser.add (bytes "secure") 0 (bytes "use SSL connection")

structure Connection where
  host : Bytes
  port : CInt
  username : Bytes
  password : Bytes
  useSSL : Bool
  deriving DecidableEq

def getString (parser : Parser Scalar) (name : Bytes) : Except Bytes Bytes := parser.get .string name

def getInt (parser : Parser Scalar) (name : Bytes) : Except Bytes CInt := parser.get .int name

/-- The `try` block of `main`. Nothing is returned when it prints the usage text instead. -/
def readConnection (parser : Parser Scalar) (argc : Nat) : Except Bytes (Option Connection) := do
  let helped ← if argc < 4 then pure true else parser.exist Parser.help
  if helped then return none
  else
    let host ← getString parser (bytes "host")
    let port ← getInt parser (bytes "port")
    let username ← getString parser (bytes "username")
    let password ← getString parser (bytes "password")
    let useSSL ← parser.exist (bytes "secure")
    return some ⟨host, port, username, password, useSSL⟩

def getOptional (parser : Parser Scalar) (name : Bytes) : Except Bytes (Option Bytes) := do
  if ← parser.exist name then return some (← getString parser name) else return none

/-- Both options are strings that have been declared, so that nothing is thrown here. -/
def readOptions (parser : Parser Scalar) : Except Bytes Options := do
  let file ← getOptional parser (bytes "file")
  let script ← getOptional parser (bytes "script")
  return ⟨file, script⟩

/-! ## Everything that happens -/

/-- What the program meets outside of itself. `getColumn` gives the texts of a column of a result. -/
structure Environment where
  argv : List Bytes
  connect : Connection → Except Bytes Bool
  run : Bytes → Except Bytes Constant
  getColumn : Constant → Nat → Except Bytes (List Bytes)
  files : Bytes → FileState
  inputs : List Input
  cliHistory : Option Bytes
  disk : Disk

inductive ProgramEvent where
  | linenoiseHistoryLoad
  | cerr (text : Bytes)
  | connect (connection : Connection)
  | did (event : Event)
  deriving DecidableEq

/-- `terminated` is the end by an exception that is not caught. -/
inductive Ending where
  | running
  | exited (status : Nat)
  | crashed (fault : Fault)
  | terminated (what : Bytes)
  deriving DecidableEq

/-- A run of the program, with the words it offers for completion and the file `.cli_history` afterwards. -/
structure Execution where
  events : List ProgramEvent
  ending : Ending
  keyWords : List Bytes
  cliHistory : Option Bytes

def banner : Bytes := bytes "
----------------------------------------------------------
  _____          _         _      _         _____   ____  
 |  __ \\        | |       | |    (_)       |  __ \\ |  _ \\
 | |  | |  ___  | | _ __  | |__   _  _ __  | |  | || |_) |
 | |  | | / _ \\ | || '_ \\ | '_ \\ | || '_ \\ | |  | ||  _ < 
 | |__| || (_) || || |_) || | | || || | | || |__| || |_) |
 |______/ \\___/ |_|| .__/ |_| |_||_||_| |_||______/|_____/
                   | |                                    
                   |_|                            

----------------------------------------------------------
"

def showBanner : List Event :=
  [.print (bytes "Ddbclient version 1.0\n"), .print (bytes "Github: https://github.com/peeyee/ddbclient.git\n"),
    .print (banner ++ [newline])]

def keyWordsQuery : Bytes := bytes "
            select name 
            from defs() 
            where strlen(name) >= 3 and regexFind(name, \"^[a-zA-Z0-9]+\") >= 0
            order by name"

def getKeyWords (env : Environment) : Except Bytes (List Bytes) := do
  let rst ← env.run keyWordsQuery
  env.getColumn rst 0

def Status.ending : Status → Ending
  | .running => .running
  | .exited status => .exited status
  | .crashed fault => .crashed fault

/-- The file `.cli_history` after a session. The client loads it when it is constructed and stores it when it
is closed. -/
def historyAfter (env : Environment) : Status → Option Bytes
  | .exited _ => ((CommandHistory.load env.cliHistory).store env.disk env.cliHistory).2
  | _ => env.cliHistory

def interact (env : Environment) : Execution :=
  let greeting := showBanner ++ [.print (bytes "Welcome to DolphinDB "), .action (.script (bytes "version()"))]
  match env.run (bytes "version()") with
  | .error what => ⟨greeting.map .did, .terminated what, [], env.cliHistory⟩
  | .ok v =>
      let asking := greeting ++ [.print (v.getString ++ bytes "\n\n"), .action (.script keyWordsQuery)]
      match getKeyWords env with
      | .error what => ⟨asking.map .did, .terminated what, [], env.cliHistory⟩
      | .ok keyWords =>
          let (events, status) := session .start env.inputs
          ⟨(asking ++ events).map .did, status.ending, keyWords, historyAfter env status⟩

def Execution.after (first : List ProgramEvent) (rest : Execution) : Execution :=
  { rest with events := first ++ rest.events }

def failedConnect (env : Environment) (connection : Connection) : Execution :=
  let message := bytes "Failed connect to DolphinDB " ++ connection.host ++ bytes ":" ++
    decimal connection.port.val ++ [newline]
  ⟨[.did (.print message)], .exited 130, [], env.cliHistory⟩

def runOrInteract (env : Environment) (options : Options) : Execution :=
  match batch options env.files env.run with
  | some (events, status) => ⟨events.map .did, .exited status, [], env.cliHistory⟩
  | none => interact env

def serve (env : Environment) (parser : Parser Scalar) (connection : Connection) : Execution :=
  match env.connect connection with
  | .error what => ⟨[], .terminated what, [], env.cliHistory⟩
  | .ok false => failedConnect env connection
  | .ok true =>
      match readOptions parser with
      | .error what => ⟨[], .terminated what, [], env.cliHistory⟩
      | .ok options => runOrInteract env options

def mainAfterLoad (env : Environment) : Execution :=
  match setUp with
  | .error what => ⟨[], .terminated what, [], env.cliHistory⟩
  | .ok parser =>
      match parser.parseCheck env.argv with
      | .error what => ⟨[], .terminated what, [], env.cliHistory⟩
      | .ok (_, some exits) => ⟨[.cerr exits.cerr], .exited exits.status, [], env.cliHistory⟩
      | .ok (parser, none) =>
          match readConnection parser env.argv.length with
          | .error _ => ⟨[.did (.print (bytes "Parse input failed, exit.\n"))], .exited 128, [], env.cliHistory⟩
          | .ok none => ⟨[.did (.print (parser.usage ++ [newline]))], .exited 0, [], env.cliHistory⟩
          | .ok (some connection) => (serve env parser connection).after [.connect connection]

def main (env : Environment) : Execution := (mainAfterLoad env).after [.linenoiseHistoryLoad]

end Ddbclient
