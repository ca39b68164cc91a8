import Ddbclient.StringUtil
import Ddbclient.Lib.Lines

/-!
# Reading a script file

A `FileReader` keeps the text it has read in a member, to which every call of `read` appends.
-/

namespace Ddbclient
open Lib.Lines

/-- What happens to a file that is read: it does not open, it is read to its end, or reading fails
after some of its bytes. -/
inductive FileState where
  | unopened
  | readable (content : Bytes)
  | broken (before : Bytes)
  deriving DecidableEq

namespace FileState

/-- The lines that `getline` returns successfully. A line cut short by a read error is not one. -/
def lines : FileState → List Bytes
  | .unopened => []
  | .readable content => splitLines newline content
  | .broken before => terminatedLines newline before

def isOpen : FileState → Bool
  | .unopened => false
  | _ => true

/-- The file cannot be opened, is empty, or breaks off in its first line. -/
def Blank : FileState → Prop
  | .unopened => True
  | .readable content => content = []
  | .broken before => newline ∉ before

theorem lines_eq_nil_iff (file : FileState) : file.lines = [] ↔ file.Blank := by
  cases file with
  | unopened => exact iff_of_true rfl trivial
  | readable content => exact splitLines_eq_nil_iff
  | broken before => exact terminatedLines_eq_nil_iff

end FileState

structure FileReader where
  content_ : Bytes

namespace FileReader

def new : FileReader := ⟨[]⟩

structure ReadResult where
  reader : FileReader
  script : Bytes
  printed : Bytes

def failedToOpen (filename : Bytes) : Bytes :=
  bytes "Failed to open " ++ filename ++
    bytes ", please check if it exists or you have the right to read it.\n"

def read (f : FileReader) (filename : Bytes) (file : FileState) : ReadResult :=
  if file.isOpen then
    let content_ := file.lines.foldl (fun content_ line => content_ ++ (line ++ [newline])) f.content_
    ⟨⟨content_⟩, content_, []⟩
  else ⟨f, f.content_, failedToOpen filename⟩

theorem foldl_appendLine (content_ : Bytes) (lines : List Bytes) :
    lines.foldl (fun content_ line => content_ ++ (line ++ [newline])) content_ =
      content_ ++ joinLines newline lines := by
  induction lines generalizing content_ with
  | nil => simp
  | cons line lines ih => simp [ih]

theorem read_script (f : FileReader) (filename : Bytes) (file : FileState) :
    (f.read filename file).script = f.content_ ++ joinLines newline file.lines := by
  cases file with
  | unopened => exact (List.append_nil _).symm
  | readable content => exact foldl_appendLine f.content_ _
  | broken before => exact foldl_appendLine f.content_ _

/-- A new reader returns the text of the file, with a final newline added when it lacked one. -/
theorem read_readable (filename content : Bytes) :
    (new.read filename (.readable content)).script =
      if content = [] ∨ content.getLast? = some newline then content else content ++ [newline] := by
  rw [read_script, ← joinLines_splitLines]
  rfl

/-! ## Reading again -/

/-- The reader after some reads, each of a file name and what happens to that file. -/
def readAll (f : FileReader) (reads : List (Bytes × FileState)) : FileReader :=
  reads.foldl (fun f request => (f.read request.1 request.2).reader) f

theorem read_content (f : FileReader) (filename : Bytes) (file : FileState) :
    (f.read filename file).reader.content_ = (f.read filename file).script := by
  cases file <;> rfl

theorem read_printed (f g : FileReader) (filename : Bytes) (file : FileState) :
    (f.read filename file).printed = (g.read filename file).printed := by
  cases file <;> rfl

theorem readAll_content (f : FileReader) (reads : List (Bytes × FileState)) :
    (f.readAll reads).content_ = f.content_ ++ reads.flatMap fun request => joinLines newline request.2.lines := by
  induction reads generalizing f with
  | nil => exact (List.append_nil _).symm
  | cons request reads ih =>
      have further := ih (f.read request.1 request.2).reader
      rw [read_content, read_script, List.append_assoc] at further
      exact further

theorem readAll_content_eq_nil_iff (reads : List (Bytes × FileState)) :
    (new.readAll reads).content_ = [] ↔ ∀ request ∈ reads, request.2.Blank := by
  rw [readAll_content, show new.content_ = [] from rfl, List.nil_append, List.flatMap_eq_nil_iff]
  simp only [joinLines_eq_nil_iff, FileState.lines_eq_nil_iff]

/-- A reader that was used before gives for a file what a new one gives exactly when no line was read
before: `content_` is never emptied. -/
theorem read_again_iff (reads : List (Bytes × FileState)) (filename : Bytes) (file : FileState) :
    (((new.readAll reads).read filename file).script = (new.read filename file).script ∧
        ((new.readAll reads).read filename file).printed = (new.read filename file).printed) ↔
      ∀ request ∈ reads, request.2.Blank := by
  rw [and_iff_left (read_printed _ _ filename file), ← readAll_content_eq_nil_iff, read_script, read_script]
  exact List.append_left_eq_self

theorem second_script_keeps_first :
    ((new.readAll [(bytes "a.dos", .readable (bytes "t.clear!()\n"))]).read (bytes "b.dos")
        (.readable (bytes "1..10\n"))).script = bytes "t.clear!()\n1..10\n" ∧
      (new.read (bytes "b.dos") (.readable (bytes "1..10\n"))).script = bytes "1..10\n" := by
  refine ⟨?_, ?_⟩ <;> decide

end FileReader
end Ddbclient
