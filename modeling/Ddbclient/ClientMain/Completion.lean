import Ddbclient.StringUtil

/-!
# Completion

`completionHook` of `ClientMain.cpp` offers the function names that begin with the part of the word after its
last dot. The word and the names pass through as C strings, so they hold no NUL bytes.
-/

namespace Ddbclient
open Lib.Search

def completionHook (keyWords : List Bytes) (input : Bytes) : List Bytes :=
  let currentInput :=
    if StringUtil.contains input [dot] then
      match findLast dot input with
      | some i => input.drop (i + 1)
      -- `npos + 1` is zero
      | none => input.drop 0
    else input
  keyWords.filter fun func => find currentInput func = some 0

/-- The part of a word after its last dot, the whole word when it has none. -/
def afterLastDot (input : Bytes) : Bytes := input.rtakeWhile (· ≠ dot)

theorem afterLastDot_of_not_mem {input : Bytes} (dotFree : dot ∉ input) : afterLastDot input = input :=
  List.rtakeWhile_eq_self_iff.mpr (forall_ne_of_not_mem dotFree)

theorem afterLastDot_append (input : Bytes) {more : Bytes} (dotFree : dot ∉ more) :
    afterLastDot (input ++ more) = afterLastDot input ++ more :=
  rtakeWhile_append input (forall_ne_of_not_mem dotFree)

theorem dot_not_mem_afterLastDot (input : Bytes) : dot ∉ afterLastDot input := by
  intro member
  have other := List.mem_rtakeWhile_imp member
  simp at other

theorem completionHook_eq (keyWords : List Bytes) (input : Bytes) :
    completionHook keyWords input = keyWords.filter fun func => afterLastDot input <+: func := by
  have current : (if StringUtil.contains input [dot] then
      match findLast dot input with
      | some i => input.drop (i + 1)
      | none => input.drop 0
    else input) = afterLastDot input := by
    by_cases dotted : dot ∈ input
    · rw [if_pos ((StringUtil.contains_singleton input dot).mpr dotted)]
      cases found : findLast dot input with
      | none => exact absurd dotted (findLast_eq_none_iff.mp found)
      | some i => exact drop_findLast found
    · rw [if_neg (mt (StringUtil.contains_singleton input dot).mp dotted), afterLastDot_of_not_mem dotted]
  simp only [completionHook, current, find_eq_zero_iff]

theorem mem_completionHook {keyWords : List Bytes} {input func : Bytes} :
    func ∈ completionHook keyWords input ↔ func ∈ keyWords ∧ afterLastDot input <+: func := by
  rw [completionHook_eq, List.mem_filter, decide_eq_true_eq]

/-! ## Narrowing while typing -/

/-- The candidates are the keywords that begin with the part after the last dot, and typing on without a dot
keeps exactly the candidates that begin with what that part has become. -/
theorem completionHook_narrows (keyWords : List Bytes) (input more : Bytes) (dotFree : dot ∉ more) :
    completionHook keyWords input = keyWords.filter (fun func => afterLastDot input <+: func) ∧
      completionHook keyWords (input ++ more) =
        (completionHook keyWords input).filter fun func => afterLastDot input ++ more <+: func := by
  refine ⟨completionHook_eq keyWords input, ?_⟩
  rw [completionHook_eq, completionHook_eq, afterLastDot_append input dotFree, List.filter_filter]
  apply List.filter_congr
  intro func _
  by_cases begins : afterLastDot input ++ more <+: func
  · have shorter := (List.prefix_append _ more).trans begins
    simp [begins, shorter]
  · simp [begins]

theorem completionHook_narrows_msum :
    completionHook [bytes "msum", bytes "msin", bytes "msum"] (bytes "a.ms") =
        [bytes "msum", bytes "msin", bytes "msum"].filter (fun func => afterLastDot (bytes "a.ms") <+: func) ∧
      completionHook [bytes "msum", bytes "msin", bytes "msum"] (bytes "a.ms" ++ bytes "u") =
        (completionHook [bytes "msum", bytes "msin", bytes "msum"] (bytes "a.ms")).filter
          fun func => afterLastDot (bytes "a.ms") ++ bytes "u" <+: func :=
  completionHook_narrows [bytes "msum", bytes "msin", bytes "msum"] (bytes "a.ms") (bytes "u") (by decide)

/-! ## Accepting a candidate -/

theorem length_afterLastDot_lt {input : Bytes} (dotted : dot ∈ input) : (afterLastDot input).length < input.length := by
  have suffix : afterLastDot input <:+ input := List.rtakeWhile_suffix _ _
  apply lt_of_le_of_ne suffix.length_le
  intro same
  have whole := suffix.eq_of_length same
  rw [← whole] at dotted
  exact dot_not_mem_afterLastDot input dotted

theorem extends_of_dotFree {keyWords : List Bytes} {input func : Bytes} (dotFree : dot ∉ input)
    (candidate : func ∈ completionHook keyWords input) : input <+: func := by
  have begins := (mem_completionHook.mp candidate).2
  rwa [afterLastDot_of_not_mem dotFree] at begins

/-- Every candidate has the typed word as a prefix, whatever the keywords are, exactly when no dot was typed;
after a dot, for the keywords at hand exactly when each of them that begins with the part after the last dot
begins with the whole word. -/
theorem candidates_extend_iff (input : Bytes) :
    ((∀ keyWords, ∀ func ∈ completionHook keyWords input, input <+: func) ↔ dot ∉ input) ∧
      ∀ keyWords, (∀ func ∈ completionHook keyWords input, input <+: func) ↔
        dot ∉ input ∨ ∀ func ∈ keyWords, afterLastDot input <+: func → input <+: func := by
  constructor
  · constructor
    · intro keeps dotted
      -- the part after the last dot is a candidate for itself, and too short
      have candidate : afterLastDot input ∈ completionHook [afterLastDot input] input :=
        mem_completionHook.mpr ⟨List.mem_cons_self, List.prefix_refl _⟩
      have fits := (keeps _ _ candidate).length_le
      exact absurd (length_afterLastDot_lt dotted) (Nat.not_lt.mpr fits)
    · intro dotFree keyWords func candidate
      exact extends_of_dotFree dotFree candidate
  · intro keyWords
    constructor
    · intro keeps
      exact Or.inr fun func member begins => keeps func (mem_completionHook.mpr ⟨member, begins⟩)
    · rintro (dotFree | keeps) func candidate
      · exact extends_of_dotFree dotFree candidate
      · obtain ⟨member, begins⟩ := mem_completionHook.mp candidate
        exact keeps func member begins

theorem candidates_lose_typed_text :
    completionHook [bytes "msum", bytes "msum2", bytes "msumTopN", bytes "mul"] (bytes "a.msu") =
        [bytes "msum", bytes "msum2", bytes "msumTopN"] ∧
      ¬ bytes "a.msu" <+: bytes "msum" := by
  constructor <;> decide

end Ddbclient
