import Ddbclient.StringUtil
import Ddbclient.Lib.Lines

/-!
# The command history

`CommandHistory` keeps the latest commands in a deque, newest first, loads them from a file when it is
constructed and writes them back when it is stored.
-/

namespace Ddbclient
open Lib.Lines

/-- How an `ofstream` fares: whether the file opens, and after how many bytes, if ever, writing starts
to fail. From then on everything is dropped silently. -/
structure Disk where
  opens : Bool
  room : Option Nat

def Disk.good : Disk := ⟨true, none⟩

structure OFStream where
  written : Bytes
  room : Option Nat

def OFStream.put (fout : OFStream) (text : Bytes) : OFStream :=
  match fout.room with
  | none => ⟨fout.written ++ text, none⟩
  | some room => ⟨fout.written ++ text.take room, some (room - text.length)⟩

def OFStream.putLine (fout : OFStream) (command : Bytes) : OFStream := (fout.put command).put [newline]

namespace OFStream

theorem put_nil (fout : OFStream) : fout.put [] = fout := by
  obtain ⟨written, room⟩ := fout
  cases room <;> simp [put]

theorem put_append (fout : OFStream) (first second : Bytes) :
    (fout.put first).put second = fout.put (first ++ second) := by
  obtain ⟨written, room⟩ := fout
  cases room with
  | none => simp [put]
  | some room => simp [put, List.take_append, Nat.sub_sub]

theorem foldl_putLine (commands : List Bytes) (fout : OFStream) :
    commands.foldl putLine fout = fout.put (joinLines newline commands) := by
  induction commands generalizing fout with
  | nil => exact fout.put_nil.symm
  | cons command commands ih =>
      rw [List.foldl_cons, ih, putLine, put_append, put_append, joinLines_cons]
      rfl

end OFStream

def DEPTH : Nat := 100

structure CommandHistory where
  history : List Bytes
  currentPosition : Nat
  size_le : history.length ≤ DEPTH
  position_lt : currentPosition < DEPTH

namespace CommandHistory

def loadLoop : List Bytes → Nat → List Bytes → List Bytes
  | [], _, history => history
  | command :: lines, i, history =>
      if i < DEPTH then loadLoop lines (i + 1) (history ++ [command]) else history

theorem loadLoop_eq (lines : List Bytes) (i : Nat) (history : List Bytes) :
    loadLoop lines i history = history ++ lines.take (DEPTH - i) := by
  induction lines generalizing i history with
  | nil => simp [loadLoop]
  | cons command lines ih =>
      by_cases more : i < DEPTH
      · obtain ⟨rest, count⟩ : ∃ rest, DEPTH - i = rest + 1 := ⟨DEPTH - i - 1, by omega⟩
        have count' : DEPTH - (i + 1) = rest := by omega
        rw [loadLoop, if_pos more, ih, count, count', List.take_succ_cons, List.append_assoc, List.singleton_append]
      · rw [loadLoop, if_neg more, show DEPTH - i = 0 by omega, List.take_zero, List.append_nil]

def fileLines (file : Option Bytes) : List Bytes :=
  match file with
  | some content => splitLines newline content
  | none => []

/-- The constructor. The file does not open when it does not exist. -/
def load (file : Option Bytes) : CommandHistory where
  history := loadLoop (fileLines file) 0 []
  currentPosition := 0
  size_le := by rw [loadLoop_eq, List.nil_append, List.length_take]; exact Nat.min_le_left _ _
  position_lt := by decide

def add (h : CommandHistory) (command : Bytes) : CommandHistory where
  history := if h.history.length < DEPTH then command :: h.history else command :: h.history.dropLast
  currentPosition := 0
  size_le := by
    have bound := h.size_le
    have depth : DEPTH = 100 := rfl
    split
    · rw [List.length_cons]
      omega
    · rw [List.length_cons, List.length_dropLast]
      omega
  position_lt := by decide

/-- `history->at(index)`, after the cursor has been moved there; nothing when it throws
`out_of_range`. -/
def moveTo (h : CommandHistory) (index : Nat) (bound : index < DEPTH) : CommandHistory × Option Bytes :=
  ({ h with currentPosition := index, position_lt := bound }, h.history[index]?)

def getPrev (h : CommandHistory) : CommandHistory × Option Bytes :=
  h.moveTo (if h.currentPosition = DEPTH - 1 then h.currentPosition else h.currentPosition + 1) (by
    have := h.position_lt
    split <;> omega)

def getNext (h : CommandHistory) : CommandHistory × Option Bytes :=
  h.moveTo (if h.currentPosition = 0 then 0 else h.currentPosition - 1) (by
    have := h.position_lt
    split <;> omega)

/-- The value that `store` returns, and the file afterwards. Opening the file empties it. -/
def store (h : CommandHistory) (disk : Disk) (file : Option Bytes) : Bool × Option Bytes :=
  if disk.opens then
    (true, some (h.history.foldl OFStream.putLine ⟨[], disk.room⟩).written)
  else (false, file)

/-! ## What one call does -/

@[simp] theorem load_history (file : Option Bytes) : (load file).history = (fileLines file).take DEPTH :=
  loadLoop_eq (fileLines file) 0 []

theorem add_history (h : CommandHistory) (command : Bytes) :
    (h.add command).history = (command :: h.history).take DEPTH := by
  have bound := h.size_le
  change (if h.history.length < DEPTH then command :: h.history else command :: h.history.dropLast) = _
  by_cases room : h.history.length < DEPTH
  · rw [if_pos room, List.take_of_length_le (by rw [List.length_cons]; omega)]
  · have full : h.history.length = DEPTH := by omega
    rw [if_neg room, List.dropLast_eq_take, full]
    rfl

theorem store_good (h : CommandHistory) (file : Option Bytes) :
    h.store Disk.good file = (true, some (joinLines newline h.history)) := by
  change (true, some (h.history.foldl OFStream.putLine ⟨[], none⟩).written) = _
  rw [OFStream.foldl_putLine]
  rfl

/-! ## Sessions -/

inductive Call where
  | add (command : Bytes)
  | getPrev
  | getNext
  deriving DecidableEq

namespace Call

/-- The history after a call. The caller catches what `getPrev` and `getNext` throw. -/
def run (h : CommandHistory) : Call → CommandHistory
  | .add command => h.add command
  | .getPrev => h.getPrev.1
  | .getNext => h.getNext.1

def added : Call → Option Bytes
  | .add command => some command
  | _ => none

end Call

def session (file : Option Bytes) (calls : List Call) : Bool × Option Bytes :=
  (calls.foldl Call.run (load file)).store Disk.good file

def sessions (file : Option Bytes) (runs : List (List Call)) : Option Bytes :=
  runs.foldl (fun file calls => (session file calls).2) file

def newestFirst (calls : List Call) : List Bytes := (calls.filterMap Call.added).reverse

theorem newestFirst_append (first second : List Call) :
    newestFirst (first ++ second) = newestFirst second ++ newestFirst first := by
  simp [newestFirst]

theorem newestFirst_cons (call : Call) (calls : List Call) :
    newestFirst (call :: calls) = newestFirst calls ++ call.added.toList := by
  cases call with
  | add command => simp [newestFirst, Call.added]
  | getPrev => exact (List.append_nil _).symm
  | getNext => exact (List.append_nil _).symm

theorem take_append_take (newer older : List Bytes) (n : Nat) :
    (newer ++ older.take n).take n = (newer ++ older).take n := by
  rw [List.take_append, List.take_append, List.take_take, Nat.min_eq_left (by omega)]

theorem run_history (h : CommandHistory) (call : Call) :
    (call.run h).history = (call.added.toList ++ h.history).take DEPTH := by
  cases call with
  | add command => exact add_history h command
  | getPrev => exact (List.take_of_length_le h.size_le).symm
  | getNext => exact (List.take_of_length_le h.size_le).symm

theorem foldl_run_history (calls : List Call) (h : CommandHistory) :
    (calls.foldl Call.run h).history = (newestFirst calls ++ h.history).take DEPTH := by
  induction calls generalizing h with
  | nil => exact (List.take_of_length_le h.size_le).symm
  | cons call calls ih =>
      rw [List.foldl_cons, ih, run_history, take_append_take, newestFirst_cons, List.append_assoc]

def NewlineFreeCalls (calls : List Call) : Prop := ∀ command ∈ calls.filterMap Call.added, newline ∉ command

instance (calls : List Call) : Decidable (NewlineFreeCalls calls) :=
  inferInstanceAs (Decidable (∀ command ∈ calls.filterMap Call.added, newline ∉ command))

theorem fileLines_newlineFree (file : Option Bytes) : ∀ line ∈ fileLines file, newline ∉ line := by
  cases file with
  | none => simp [fileLines]
  | some content => exact newline_not_mem_of_mem_splitLines content

theorem fileLines_session (file : Option Bytes) {calls : List Call} (free : NewlineFreeCalls calls) :
    fileLines (session file calls).2 = (newestFirst calls ++ fileLines file).take DEPTH := by
  have entries := foldl_run_history calls (load file)
  rw [load_history, take_append_take] at entries
  rw [session, store_good, entries]
  refine splitLines_joinLines _ fun line member => ?_
  rcases List.mem_append.mp (List.mem_of_mem_take member) with added | stored
  · exact free line (List.mem_reverse.mp added)
  · exact fileLines_newlineFree file line stored

theorem fileLines_sessions (file : Option Bytes) {runs : List (List Call)}
    (free : ∀ calls ∈ runs, NewlineFreeCalls calls) :
    (fileLines (sessions file runs)).take DEPTH = (newestFirst runs.flatten ++ fileLines file).take DEPTH := by
  induction runs generalizing file with
  | nil => rfl
  | cons calls runs ih =>
      rw [sessions, List.foldl_cons, ← sessions, ih _ fun others member => free others (List.mem_cons_of_mem _ member),
        fileLines_session file (free calls List.mem_cons_self), take_append_take, List.flatten_cons,
        newestFirst_append, List.append_assoc]

/-- After every session, the lines of the file and the entries that the next constructor loads are the
first 100 of all commands added so far, newest first, followed by the lines of the initial file. -/
theorem sessions_history (file : Option Bytes) (runs : List (List Call)) (last : List Call)
    (free : ∀ calls ∈ runs ++ [last], NewlineFreeCalls calls) :
    (session (sessions file runs) last).1 = true ∧
      fileLines (sessions file (runs ++ [last])) =
        (newestFirst (runs ++ [last]).flatten ++ fileLines file).take 100 ∧
      (load (sessions file (runs ++ [last]))).history =
        (newestFirst (runs ++ [last]).flatten ++ fileLines file).take 100 := by
  have earlier := fileLines_sessions file fun calls member => free calls (List.mem_append_left _ member)
  have final : fileLines (sessions file (runs ++ [last])) =
      (newestFirst (runs ++ [last]).flatten ++ fileLines file).take DEPTH := by
    have stored : sessions file (runs ++ [last]) = (session (sessions file runs) last).2 := by
      simp [sessions]
    rw [stored, fileLines_session _ (free last (by simp)), ← take_append_take, earlier, take_append_take,
      List.flatten_append, newestFirst_append, List.append_assoc, List.flatten_singleton]
  refine ⟨by rw [session, store_good], final, ?_⟩
  rw [load_history, final, List.take_take]
  rfl

theorem sessions_history_two :
    (session (sessions (some (bytes "a\nb")) [[.add (bytes "c"), .getPrev]]) [.add []]).1 = true ∧
      fileLines (sessions (some (bytes "a\nb")) [[.add (bytes "c"), .getPrev], [.add []]]) =
        [[], bytes "c", bytes "a", bytes "b"] ∧
      (load (sessions (some (bytes "a\nb")) [[.add (bytes "c"), .getPrev], [.add []]])).history =
        [[], bytes "c", bytes "a", bytes "b"] :=
  sessions_history (some (bytes "a\nb")) [[.add (bytes "c"), .getPrev]] [.add []] (by decide)

end CommandHistory
end Ddbclient
