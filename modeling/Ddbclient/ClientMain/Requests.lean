import Ddbclient.ClientMain.Conversation

/-!
# Requests

What the user wants of a run, a connection and perhaps a file or a script, written out as a command line. The
program makes exactly the connections that can be written out.
-/

namespace Ddbclient
open Lib Lib.Checked

/-! ## Writing assignments out -/

namespace Cmdline

def writtenOut : Bytes × Option Bytes → Bytes
  | (name, none) => bytes "--" ++ name
  | (name, some value) => bytes "--" ++ name ++ equals :: value

def Item.ofAssignment (assignment : Bytes × Option Bytes) : Item := .assign assignment.1 assignment.2

theorem given_ofAssignment (requested : List (Bytes × Option Bytes)) (name : Bytes) :
    given (requested.map Item.ofAssignment) name =
      (requested.filter fun assignment => assignment.1 = name).map Prod.snd := by
  rw [given, assignments, List.filterMap_map]
  exact congrArg (fun all => (List.filter _ all).map Prod.snd) List.filterMap_some

theorem exists_writtenOut {g : Grammar} {requested : List (Bytes × Option Bytes)}
    (accepted : ∀ assignment ∈ requested, equals ∉ assignment.1 ∧ (Item.ofAssignment assignment).problem g = none) :
    ∃ words : List (Word g), words.flatMap Word.render = requested.map writtenOut ∧
      words.flatMap Word.items = requested.map Item.ofAssignment := by
  induction requested with
  | nil => exact ⟨[], rfl, rfl⟩
  | cons assignment requested ih =>
      obtain ⟨⟨plain, read⟩, later⟩ := List.forall_mem_cons.mp accepted
      obtain ⟨words, rendered, meant⟩ := ih later
      obtain ⟨name, _ | value⟩ := assignment
      · obtain ⟨flag, rfl⟩ := Grammar.flag_of_accepted read
        exact ⟨.long flag plain :: words, congrArg (_ :: ·) rendered, congrArg (_ :: ·) meant⟩
      · obtain ⟨setting, rfl, rfl⟩ := Grammar.setting_of_accepted read
        exact ⟨.joined setting plain :: words, congrArg (_ :: ·) rendered, congrArg (_ :: ·) meant⟩

end Cmdline

/-! ## Writing a request out -/

open Cmdline Cmdline.Parser

def ValidPort (port : CInt) : Prop := 1 ≤ port.val ∧ port.val ≤ 65535

instance decidableValidPort (port : CInt) : Decidable (ValidPort port) := inferInstanceAs (Decidable (_ ∧ _))

def requestOf (c : Connection) (o : Options) : List (Bytes × Option Bytes) :=
  [(bytes "host", some c.host), (bytes "port", some (decimal c.port.val)), (bytes "username", some c.username),
    (bytes "password", some c.password)] ++
  (if c.useSSL then [(bytes "secure", none)] else []) ++
  o.file.toList.map (fun filename => (bytes "file", some filename)) ++
  o.script.toList.map fun script => (bytes "script", some script)

def commandLine (c : Connection) (o : Options) : List Bytes := (requestOf c o).map writtenOut

theorem accepted_port {port : CInt} (valid : ValidPort port) :
    (Item.assign (bytes "port") (some (decimal port.val))).problem programParser.rules = none := by
  have read : rangeReader (int 1) (int 65535) (decimal port.val) = some port := rangeReader_decimal valid
  exact Item.problem_assign_iff.mpr ⟨_, rfl, congrArg Option.isSome read⟩

theorem accepted_request {c : Connection} (valid : ValidPort c.port) (o : Options) :
    ∀ assignment ∈ requestOf c o, (Item.ofAssignment assignment).problem programParser.rules = none := by
  rw [requestOf, List.forall_mem_append, List.forall_mem_append, List.forall_mem_append]
  refine ⟨⟨⟨?_, ?_⟩, ?_⟩, ?_⟩
  · rw [List.forall_mem_cons, List.forall_mem_cons, List.forall_mem_cons, List.forall_mem_singleton]
    exact ⟨rfl, accepted_port valid, rfl, rfl⟩
  · cases c.useSSL with
    | false => exact List.forall_mem_nil _
    | true => exact List.forall_mem_singleton.mpr rfl
  · exact List.forall_mem_map.mpr fun filename _ => rfl
  · exact List.forall_mem_map.mpr fun script _ => rfl

theorem plain_names : ∀ option ∈ programParser.options.entries, equals ∉ option.name := by decide

theorem plain_of_accepted {assignment : Bytes × Option Bytes}
    (accepted : (Item.ofAssignment assignment).problem programParser.rules = none) : equals ∉ assignment.1 := by
  obtain ⟨kind, known, -⟩ := Item.problem_assign_iff.mp accepted
  obtain ⟨option, found, -⟩ := Option.map_eq_some_iff.mp known
  rw [← Table.key_of_find? found]
  exact plain_names option (Table.mem_of_find? found)

/-- What the words say about each option is what the request asks for. -/
structure Asks (words : List CommandWord) (c : Connection) (o : Options) : Prop where
  host : written words (bytes "host") = [some c.host]
  port : written words (bytes "port") = [some (decimal c.port.val)]
  username : written words (bytes "username") = [some c.username]
  password : written words (bytes "password") = [some c.password]
  secure : written words (bytes "secure") = if c.useSSL then [none] else []
  file : written words (bytes "file") = o.file.toList.map some
  script : written words (bytes "script") = o.script.toList.map some
  help : written words Parser.help = []

theorem asks_of_items {words : List CommandWord} {c : Connection} {o : Options}
    (meant : words.flatMap Word.items = (requestOf c o).map Item.ofAssignment) : Asks words c o := by
  have all (name : Bytes) : written words name =
      ((requestOf c o).filter fun assignment => assignment.1 = name).map Prod.snd := by
    rw [written, meant, given_ofAssignment]
  obtain ⟨host, port, username, password, useSSL⟩ := c
  obtain ⟨file, script⟩ := o
  constructor
  all_goals
    rw [all]
    cases useSSL <;> cases file <;> cases script <;> rfl

theorem exists_request {c : Connection} (valid : ValidPort c.port) (o : Options) :
    ∃ words : List CommandWord, words.flatMap Word.render = commandLine c o ∧ Asks words c o := by
  obtain ⟨words, rendered, meant⟩ := exists_writtenOut fun assignment member =>
    have accepted := accepted_request valid o assignment member
    ⟨plain_of_accepted accepted, accepted⟩
  exact ⟨words, rendered, asks_of_items meant⟩

theorem optionalText_eq {words : List CommandWord} {name : Bytes} {text : Option Bytes}
    (meant : written words name = text.toList.map some) : optionalText words name = text := by
  rw [optionalText, isWritten, textOf, meant]
  cases text <;> rfl

namespace Asks
variable {words : List CommandWord} {c : Connection} {o : Options} (asks : Asks words c o)
include asks

theorem complete : Complete words where
  needed := by
    rw [neededNames, List.forall_mem_cons, List.forall_mem_cons, List.forall_mem_singleton, isWritten, asks.host,
      isWritten, asks.username, isWritten, asks.password]
    exact ⟨rfl, rfl, rfl⟩
  unasked := by
    rw [isWritten, asks.help]
    rfl

theorem portOf_eq (valid : ValidPort c.port) : portOf words = c.port := by
  have read : rangeReader (int 1) (int 65535) (decimal c.port.val) = some c.port := rangeReader_decimal valid
  rw [portOf, asks.port]
  change (rangeReader (int 1) (int 65535) (decimal c.port.val)).getD _ = c.port
  rw [read, Option.getD_some]

theorem connectionOf_eq (valid : ValidPort c.port) : connectionOf words = c := by
  have secure : isWritten words (bytes "secure") = c.useSSL := by
    rw [isWritten, asks.secure]
    cases c.useSSL <;> rfl
  rw [connectionOf, textOf, asks.host, asks.portOf_eq valid, textOf, asks.username, textOf, asks.password, secure]
  rfl

theorem optionsOf_eq : optionsOf words = o := by
  rw [optionsOf, optionalText_eq asks.file, optionalText_eq asks.script]

end Asks

theorem accepted_commandLine (program : Bytes) {c : Connection} (valid : ValidPort c.port) (o : Options) :
    Accepted (program :: commandLine c o) c o := by
  obtain ⟨words, rendered, asks⟩ := exists_request valid o
  have accepted := accepted_of_complete program asks.complete
  rwa [rendered, asks.connectionOf_eq valid, asks.optionsOf_eq] at accepted

theorem validPort_portOf (words : List CommandWord) : ValidPort (portOf words) := by
  unfold portOf
  cases read : (written words (bytes "port")).getLast?.bind fun value =>
      value.bind (rangeReader (int 1) (int 65535)) with
  | none => decide
  | some port =>
      obtain ⟨value, -, read⟩ := Option.bind_eq_some_iff.mp read
      obtain ⟨text, -, read⟩ := Option.bind_eq_some_iff.mp read
      exact rangeReader_inRange read

theorem validPort_of_accepted {argv : List Bytes} {c : Connection} {o : Options} (accepted : Accepted argv c o) :
    ValidPort c.port := by
  cases argv with
  | nil => cases accepted.accepted
  | cons program args =>
      obtain ⟨words, rfl, complete⟩ := complete_of_accepted program accepted
      obtain ⟨rfl, -⟩ := accepted.unique (accepted_of_complete program complete)
      exact validPort_portOf words

theorem validPort_of_said {env : Environment} {c : Connection} (asked : .connect c ∈ said (main env).events) :
    ValidPort c.port := by
  rcases accepted_or_silent env with ⟨c', o, accepted⟩ | ⟨-, silent⟩
  · rw [said_accepted accepted] at asked
    rcases List.mem_cons.mp asked with same | later
    · obtain rfl := Said.connect.inj same
      exact validPort_of_accepted accepted
    · split at later
      · obtain ⟨script, -, ⟨⟩⟩ := List.mem_map.mp later
      · cases later
  · rw [silent] at asked
    cases asked

/-- Every connection to a port that there is, with any file and script, can be asked for on the command line, and
the server is then told exactly that. No run asks for any other connection. -/
theorem main_requests (program : Bytes) (c : Connection) (o : Options) :
    if ValidPort c.port then
      ∀ env : Environment, said (main { env with argv := program :: commandLine c o }).events =
        .connect c :: match env.connect c with
          | .ok true => (scriptsOf env o).map .script
          | _ => []
    else ∀ env : Environment, .connect c ∉ said (main env).events := by
  split
  · rename_i valid
    intro env
    have accepted : Accepted ({ env with argv := program :: commandLine c o } : Environment).argv c o :=
      accepted_commandLine program valid o
    exact said_accepted accepted
  · rename_i invalid
    intro env asked
    exact invalid (validPort_of_said asked)

end Ddbclient
