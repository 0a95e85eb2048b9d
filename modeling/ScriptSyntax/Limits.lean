/-! # Limits of the grammar -/

namespace ScriptSyntax

/-- How many arguments a call may have. -/
def maxArguments : Nat := 255

/-- How deep groups, prefix operators, assigned values, arguments, blocks and conditionals may stand
in one another. -/
def maxNesting : Nat := 64

end ScriptSyntax
