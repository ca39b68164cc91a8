import Ddbclient.StringUtil

namespace Ddbclient
open Lib.Checked

/-- What `getTermWidth` asks the system for: the environment variable `COLUMNS`, and the number of
columns that `ioctl` reports when it succeeds. -/
structure Terminal where
  COLUMNS : Option Bytes
  ws_col : Option UInt16

namespace Terminal

theorem inInt_ws_col (ws_col : UInt16) : InInt ws_col.toNat := by
  have := ws_col.toNat_lt
  constructor <;> omega

def ioctlWidth (terminal : Terminal) : CInt :=
  match terminal.ws_col with
  | some ws_col => if ws_col > 0 then ⟨ws_col.toNat, inInt_ws_col ws_col⟩ else int 80
  | none => int 80

end Terminal

def getTermWidth (g_display_width : CInt) (terminal : Terminal) : CInt :=
  if g_display_width.val > 0 then g_display_width
  else match terminal.COLUMNS with
    | some env_cols => if (atoi env_cols).val > 0 then atoi env_cols else terminal.ioctlWidth
    | none => terminal.ioctlWidth

theorem ioctlWidth_pos (terminal : Terminal) : 0 < terminal.ioctlWidth.val := by
  unfold Terminal.ioctlWidth
  cases terminal.ws_col with
  | none => decide
  | some ws_col =>
      by_cases positive : ws_col > 0
      · simp only [if_pos positive]
        have : 0 < ws_col.toNat := UInt16.lt_iff_toNat_lt.mp positive
        omega
      · simp only [if_neg positive]
        decide

theorem getTermWidth_pos (g_display_width : CInt) (terminal : Terminal) :
    0 < (getTermWidth g_display_width terminal).val := by
  unfold getTermWidth
  split
  · assumption
  · split
    · split
      · assumption
      · exact ioctlWidth_pos terminal
    · exact ioctlWidth_pos terminal

/-- Every positive `int` is the width of some terminal. -/
theorem getTermWidth_of_pos {g_display_width : CInt} (positive : 0 < g_display_width.val)
    (terminal : Terminal) : getTermWidth g_display_width terminal = g_display_width := if_pos positive

end Ddbclient
