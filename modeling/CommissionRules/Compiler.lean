import CommissionRules.Grammar

/-!
# Compiling

An expression is compiled by validating its text and then parsing it.  What is kept is the text,
the tree and the warnings of the validation.
-/

namespace CommissionRules

structure CompiledExpression where
  source : String
  expr : Expr
  warnings : List String
deriving Inhabited

/-- What expressions are compiled against: the data sources, and the limit on nesting and on the
height of the tree. -/
structure Compiler where
  catalog : Catalog
  limit : Nat

namespace Compiler

def standard : Compiler := ⟨.standard, 64⟩

/-- Parses a text without validating it. -/
def parse (compiler : Compiler) (source : String) : Except CompileError Expr :=
  CommissionRules.parse compiler.catalog compiler.limit source

/-- Validates a text and parses it if it has no errors. -/
def compile (compiler : Compiler) (source : String) : Except CompileError CompiledExpression :=
  let validation := validate source
  if validation.isValid then do
    let expr ← compiler.parse source
    .ok ⟨source, expr, validation.warnings.map Finding.message⟩
  else .error (.validation validation.errors)

end Compiler

end CommissionRules
