import TypeStream.CommandLine.Output

/-!
# What a command gives to its caller

A command prints its lines, each ended by a line feed, and behind them either its remarks or the
error that made it fail.  Both outputs and the exit code are told by the two ways in which a command
can end.

## Key results

- `CommandLine.Output.textOfLines_append`: lines are printed one after the other
- `CommandLine.Output.succeeds_of_lines`: a command that ends with its remarks
- `CommandLine.Output.fails_of_lines`: a command that ends with an error
-/

namespace TypeStream.CommandLine.Output

/-- The command succeeds, and its two outputs are the texts given. -/
structure Succeeds (o : Output) (printed remarks : String) : Prop where
  failure_eq : o.failure = none
  exitCode_eq : o.exitCode = 0
  standardOutput_eq : o.standardOutput = printed
  standardError_eq : o.standardError = remarks

/-- The command fails with the error given, and it has printed the text by then.  All that it says
    besides is the message of the error. -/
structure Fails (o : Output) (printed : String) (e : Error) : Prop where
  failure_eq : o.failure = some e
  exitCode_eq : o.exitCode = 1
  standardOutput_eq : o.standardOutput = printed
  standardError_eq : o.standardError = "Error: " ++ e.message ++ "\n"

/-- Lines are printed one after the other. -/
theorem textOfLines_append (lines more : List String) :
    textOfLines (lines ++ more) = textOfLines lines ++ textOfLines more := by
  simp only [textOfLines, List.map_append, String.join_append]

/-- The text of lines that are made from a list. -/
theorem textOfLines_map {α : Type} (line : α → String) (l : List α) :
    textOfLines (l.map line) = String.join (l.map fun a => line a ++ "\n") := by
  rw [textOfLines, List.map_map]
  rfl

theorem textOfLines_singleton (line : String) : textOfLines [line] = line ++ "\n" := by
  rw [textOfLines, List.map_cons, List.map_nil, String.join_cons, String.join_nil,
    String.append_empty]

/-- A command without an error succeeds. -/
theorem succeeds_of_lines (lines remarks : List String) :
    Succeeds ⟨lines, remarks, none⟩ (textOfLines lines) (textOfLines remarks) := by
  refine ⟨rfl, rfl, rfl, ?_⟩
  show textOfLines (remarks ++ []) = textOfLines remarks
  rw [List.append_nil]

/-- A command with an error fails, and the error is the last of its remarks. -/
theorem fails_of_lines (lines : List String) (e : Error) :
    Fails ⟨lines, [], some e⟩ (textOfLines lines) e := by
  refine ⟨rfl, rfl, rfl, ?_⟩
  exact textOfLines_singleton ("Error: " ++ e.message)

end TypeStream.CommandLine.Output
