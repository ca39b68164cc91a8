import Ddbclient.ClientMain.Conversation
import Ddbclient.Cmdline.Secret

/-!
# The password

Two runs whose command lines differ in the password only. Unless the server tells the passwords apart, nothing that
the program does does.
-/

namespace Ddbclient
open Lib Lib.Checked Cmdline Cmdline.Parser

abbrev password : Bytes := bytes "password"

def Connection.withoutPassword (c : Connection) : Connection := { c with password := [] }

def ProgramEvent.withoutPassword : ProgramEvent → ProgramEvent
  | .connect connection => .connect connection.withoutPassword
  | event => event

def Execution.withoutPassword (run : Execution) : Execution :=
  { run with events := run.events.map ProgramEvent.withoutPassword }

theorem password_takesAny : programParser.TakesAny password := ⟨_, rfl, fun _ => rfl⟩

/-- Both command lines have words behind the name of the program or neither does, and they ask for the same but for
the password. -/
structure SameWordsBut (args args' : List Bytes) : Prop where
  empty : args = [] ↔ args' = []
  items : SameItemsBut password (programParser.rules.items args) (programParser.rules.items args')

section Alike
variable (program : Bytes) {args args' : List Bytes} (alike : SameWordsBut args args')
include alike

theorem parsed_alike :
    SameBut password (programParser.parse (program :: args)).1 (programParser.parse (program :: args')).1 ∧
      (programParser.parse (program :: args)).2 = (programParser.parse (program :: args')).2 :=
  parse_sameBut password_takesAny programParser_unambiguous program alike.items

theorem asksHelp_alike : AsksHelp (program :: args) ↔ AsksHelp (program :: args') := by
  have same := (parsed_alike program alike).1
  have alone : (program :: args).length = 1 ↔ (program :: args').length = 1 := by
    simpa using alike.empty
  rw [AsksHelp, alone, same.exist, AsksHelp]

theorem reads_alike {c c' : Connection} (reads : Reads (programParser.parse (program :: args)).1 c)
    (reads' : Reads (programParser.parse (program :: args')).1 c') : c.withoutPassword = c'.withoutPassword := by
  have same := (parsed_alike program alike).1
  obtain ⟨host, port, username, -, useSSL⟩ := reads
  obtain ⟨host', port', username', -, useSSL'⟩ := reads'
  rw [getString, same.get _ _ (by decide)] at host username
  rw [getInt, same.get _ _ (by decide)] at port
  rw [same.exist] at useSSL
  rw [Connection.withoutPassword, Connection.withoutPassword, Except.ok.inj (host.symm.trans host'),
    Except.ok.inj (port.symm.trans port'), Except.ok.inj (username.symm.trans username'),
    Except.ok.inj (useSSL.symm.trans useSSL')]

theorem getOptional_alike {name : Bytes} (other : name ≠ password) :
    getOptional (programParser.parse (program :: args)).1 name =
      getOptional (programParser.parse (program :: args')).1 name := by
  have same := (parsed_alike program alike).1
  unfold getOptional getString
  rw [same.exist, same.get _ _ other]

theorem readOptions_alike : readOptions (programParser.parse (program :: args)).1 =
    readOptions (programParser.parse (program :: args')).1 := by
  unfold readOptions
  rw [getOptional_alike program alike (by decide), getOptional_alike program alike (by decide)]

theorem refused_alike (refused : Refused (program :: args)) : Refused (program :: args') where
  unasked := (asksHelp_alike program alike).not.mp refused.unasked
  refused := by
    rw [← (parsed_alike program alike).2]
    exact refused.refused

theorem accepted_alike {c : Connection} {o : Options} (accepted : Accepted (program :: args) c o) :
    ∃ c', Accepted (program :: args') c' o ∧ c.withoutPassword = c'.withoutPassword := by
  have unasked := (asksHelp_alike program alike).not.mp accepted.unasked
  have result : (programParser.parse (program :: args')).2 = true := by
    rw [← (parsed_alike program alike).2]
    exact accepted.accepted
  obtain ⟨c', connects, reads⟩ := readConnection_ok unasked result
  exact ⟨c', ⟨unasked, result, connects, (readOptions_alike program alike).symm.trans accepted.scripts⟩,
    reads_alike program alike accepted.reads reads⟩

end Alike

/-! ## Two runs -/

def Environment.called (env : Environment) (argv : List Bytes) (connect : Connection → Except Bytes Bool) : Environment :=
  { env with argv := argv, connect := connect }

theorem withoutPassword_after (first : List ProgramEvent) (rest : Execution) :
    (rest.after first).withoutPassword = rest.withoutPassword.after (first.map ProgramEvent.withoutPassword) := by
  rw [Execution.withoutPassword, Execution.after, List.map_append]
  rfl

theorem failedConnect_alike (env : Environment) {c c' : Connection} (same : c.withoutPassword = c'.withoutPassword) :
    failedConnect env c = failedConnect env c' := by
  obtain ⟨host, port, username, secret, useSSL⟩ := c
  obtain ⟨host', port', username', secret', useSSL'⟩ := c'
  simp only [Connection.withoutPassword, Connection.mk.injEq] at same
  obtain ⟨rfl, rfl, -⟩ := same
  rfl

def sampleArgs (secret : Bytes) : List Bytes :=
  [bytes "-h", bytes "localhost", bytes "--password", secret, bytes "-u", bytes "admin"]

theorem sampleArgs_alike : SameWordsBut (sampleArgs (bytes "123456")) (sampleArgs (bytes "654321")) where
  empty := by decide
  items := .cons (.same (.assign (bytes "host") (some (bytes "localhost"))))
    (.cons (.value _ _) (.cons (.same (.assign (bytes "username") (some (bytes "admin")))) .nil))

end Ddbclient
