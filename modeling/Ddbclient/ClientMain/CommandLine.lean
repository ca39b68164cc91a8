import Ddbclient.ClientMain.Main

/-!
# The command line of the program

What `main` makes of its command line: it prints the usage text, refuses, or goes on with a connection and at
most one way to give a script. Once it goes on, reading the options cannot fail any more.
-/

namespace Ddbclient
open Lib Lib.Checked Cmdline

/-- The parser as it is when it starts to parse, with the option `--help`. -/
def programParser : Parser Scalar := ((setUp.bind Parser.addHelp).toOption).getD Parser.new

theorem setUp_ok : ∃ parser, setUp = .ok parser ∧ parser.addHelp = .ok programParser := ⟨_, rfl, rfl⟩

theorem programParser_unambiguous : programParser.Unambiguous := by decide

theorem needed_length :
    (programParser.options.entries.filter fun option => option.must && !option.hasSet).length = 3 := by decide

/-! ## Reading options that have been declared -/

section Declared
variable (argv : List Bytes) (name : Bytes)

theorem exist_declared {option : OptionBase Scalar} (declared : programParser.options.find? name = some option) :
    ∃ set, (programParser.parse argv).1.exist name = .ok set := by
  cases argv with
  | nil =>
      change ∃ set, programParser.exist name = .ok set
      rw [Parser.exist, declared]
      exact ⟨_, rfl⟩
  | cons program args =>
      rw [Parser.exist_parse program args programParser_unambiguous, declared]
      exact ⟨_, rfl⟩

theorem get_declared {T : Scalar} {value : Value T} (declared : programParser.get T name = .ok value) :
    ∃ value, (programParser.parse argv).1.get T name = .ok value := by
  cases argv with
  | nil => exact ⟨value, declared⟩
  | cons program args =>
      rw [Parser.get_parse program args programParser_unambiguous, declared]
      exact ⟨_, rfl⟩

theorem getOptional_declared {option : OptionBase Scalar} (declared : programParser.options.find? name = some option)
    {value : Bytes} (isString : programParser.get .string name = .ok value) :
    ∃ found, getOptional (programParser.parse argv).1 name = .ok found := by
  obtain ⟨set, exists_⟩ := exist_declared argv name declared
  obtain ⟨value, got⟩ := get_declared argv name isString
  unfold getOptional getString
  rw [exists_]
  cases set with
  | false => exact ⟨none, rfl⟩
  | true => exact ⟨some value, congrArg (fun outcome => outcome.map some) got⟩

end Declared

/-! ## The three outcomes -/

/-- There are no words behind the name of the program, or one of the options is `--help`. -/
def AsksHelp (argv : List Bytes) : Prop :=
  argv.length = 1 ∨ (programParser.parse argv).1.exist Parser.help = .ok true

structure Refused (argv : List Bytes) : Prop where
  unasked : ¬ AsksHelp argv
  refused : (programParser.parse argv).2 = false

structure Accepted (argv : List Bytes) (connection : Connection) (options : Options) : Prop where
  unasked : ¬ AsksHelp argv
  accepted : (programParser.parse argv).2 = true
  connects : readConnection (programParser.parse argv).1 argv.length = .ok (some connection)
  scripts : readOptions (programParser.parse argv).1 = .ok options

theorem four_le_of_accepted {argv : List Bytes} (accepted : (programParser.parse argv).2 = true) : 4 ≤ argv.length := by
  cases argv with
  | nil => cases accepted
  | cons program args =>
      have enough := Parser.needed_le_args programParser_unambiguous accepted
      rw [needed_length] at enough
      exact Nat.succ_le_succ enough

theorem readOptions_ok (argv : List Bytes) : ∃ options, readOptions (programParser.parse argv).1 = .ok options := by
  obtain ⟨file, fileRead⟩ := getOptional_declared argv (bytes "file") rfl rfl
  obtain ⟨script, scriptRead⟩ := getOptional_declared argv (bytes "script") rfl rfl
  unfold readOptions
  rw [fileRead, scriptRead]
  exact ⟨⟨file, script⟩, rfl⟩

structure Reads (parser : Parser Scalar) (connection : Connection) : Prop where
  host : getString parser (bytes "host") = .ok connection.host
  port : getInt parser (bytes "port") = .ok connection.port
  username : getString parser (bytes "username") = .ok connection.username
  password : getString parser (bytes "password") = .ok connection.password
  useSSL : parser.exist (bytes "secure") = .ok connection.useSSL

theorem readConnection_ok {argv : List Bytes} (unasked : ¬ AsksHelp argv)
    (accepted : (programParser.parse argv).2 = true) :
    ∃ connection, readConnection (programParser.parse argv).1 argv.length = .ok (some connection) ∧
      Reads (programParser.parse argv).1 connection := by
  obtain ⟨helped, asks⟩ := exist_declared argv Parser.help rfl
  obtain rfl : helped = false := by
    cases helped with
    | false => rfl
    | true => exact absurd (Or.inr asks) unasked
  obtain ⟨host, hostRead⟩ := get_declared (T := .string) argv (bytes "host") rfl
  obtain ⟨port, portRead⟩ := get_declared (T := .int) argv (bytes "port") rfl
  obtain ⟨username, usernameRead⟩ := get_declared (T := .string) argv (bytes "username") rfl
  obtain ⟨password, passwordRead⟩ := get_declared (T := .string) argv (bytes "password") rfl
  obtain ⟨useSSL, secureRead⟩ := exist_declared argv (bytes "secure") rfl
  refine ⟨⟨host, port, username, password, useSSL⟩, ?_, hostRead, portRead, usernameRead, passwordRead, secureRead⟩
  unfold readConnection getString getInt
  rw [if_neg (Nat.not_lt.mpr (four_le_of_accepted accepted)), asks, hostRead, portRead, usernameRead, passwordRead,
    secureRead]
  rfl

theorem Accepted.reads {argv : List Bytes} {connection : Connection} {options : Options}
    (accepted : Accepted argv connection options) : Reads (programParser.parse argv).1 connection := by
  obtain ⟨connection', connects, reads⟩ := readConnection_ok accepted.unasked accepted.accepted
  rw [accepted.connects] at connects
  cases connects
  exact reads

theorem commandLine_cases (argv : List Bytes) :
    AsksHelp argv ∨ Refused argv ∨ ∃ connection options, Accepted argv connection options := by
  by_cases asks : AsksHelp argv
  · exact Or.inl asks
  · cases result : (programParser.parse argv).2 with
    | false => exact Or.inr (Or.inl ⟨asks, result⟩)
    | true =>
        obtain ⟨connection, connects, -⟩ := readConnection_ok asks result
        obtain ⟨options, scripts⟩ := readOptions_ok argv
        exact Or.inr (Or.inr ⟨connection, options, asks, result, connects, scripts⟩)

/-! ## What `main` does in each of them -/

theorem parseCheck_eq {parser : Parser Scalar} (added : parser.addHelp = .ok programParser) (argv : List Bytes) :
    parser.parseCheck argv =
      ((programParser.parse argv).1.check argv.length (programParser.parse argv).2).map
        fun exits => ((programParser.parse argv).1, exits) := by
  unfold Parser.parseCheck
  rw [added]
  rfl

theorem check_helped {argv : List Bytes} (asks : AsksHelp argv) :
    (programParser.parse argv).1.check argv.length (programParser.parse argv).2 =
      .ok (some ⟨0, (programParser.parse argv).1.usage⟩) := by
  unfold Parser.check
  by_cases alone : argv.length = 1
  · have refused : (programParser.parse argv).2 = false := by
      by_contra accepted
      have enough := four_le_of_accepted (Bool.not_eq_false _ ▸ accepted)
      omega
    rw [if_pos ⟨alone, refused⟩]
    rfl
  · rw [if_neg fun both => alone both.1, asks.resolve_left alone]
    rfl

theorem check_unasked {argv : List Bytes} (unasked : ¬ AsksHelp argv) :
    (programParser.parse argv).1.check argv.length (programParser.parse argv).2 =
      .ok (if (programParser.parse argv).2 then none
        else some ⟨1, (programParser.parse argv).1.error ++ [newline] ++ (programParser.parse argv).1.usage⟩) := by
  obtain ⟨helped, asks⟩ := exist_declared argv Parser.help rfl
  unfold Parser.check
  rw [if_neg fun both => unasked (Or.inl both.1), asks]
  cases helped with
  | true => exact absurd (Or.inr asks) unasked
  | false => cases (programParser.parse argv).2 <;> rfl

theorem main_asksHelp {env : Environment} (asks : AsksHelp env.argv) :
    main env = ⟨[.linenoiseHistoryLoad, .cerr (programParser.parse env.argv).1.usage], .exited 0, [], env.cliHistory⟩ := by
  obtain ⟨parser, made, added⟩ := setUp_ok
  unfold main mainAfterLoad
  rw [made]
  dsimp only
  rw [parseCheck_eq added, check_helped asks]
  rfl

theorem main_refused {env : Environment} (refused : Refused env.argv) :
    main env = ⟨[.linenoiseHistoryLoad, .cerr ((programParser.parse env.argv).1.error ++ [newline] ++
      (programParser.parse env.argv).1.usage)], .exited 1, [], env.cliHistory⟩ := by
  obtain ⟨parser, made, added⟩ := setUp_ok
  unfold main mainAfterLoad
  rw [made]
  dsimp only
  rw [parseCheck_eq added, check_unasked refused.unasked, refused.refused]
  rfl

theorem main_accepted {env : Environment} {connection : Connection} {options : Options}
    (accepted : Accepted env.argv connection options) :
    main env = Execution.after [.linenoiseHistoryLoad, .connect connection]
      (match env.connect connection with
        | .error what => ⟨[], .terminated what, [], env.cliHistory⟩
        | .ok false => failedConnect env connection
        | .ok true => runOrInteract env options) := by
  obtain ⟨parser, made, added⟩ := setUp_ok
  unfold main mainAfterLoad
  rw [made]
  dsimp only
  rw [parseCheck_eq added, check_unasked accepted.unasked, accepted.accepted, if_pos rfl, Except.map]
  dsimp only
  rw [accepted.connects]
  dsimp only
  unfold serve
  cases env.connect connection with
  | error what => rfl
  | ok connected =>
      cases connected with
      | false => rfl
      | true =>
          dsimp only
          rw [accepted.scripts]
          rfl

end Ddbclient
