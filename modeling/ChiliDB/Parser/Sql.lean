import ChiliDB.Parser.TransformTotal

/-!
# `parse_sql`

`crates/parser/src/lib.rs`: the grammar, and then the transform of its tree.
-/

namespace ChiliDB.Sql

open Effect Grammar

/-- `parse_sql`. -/
def parseSql (debug : Peg.Debug) (input : String) : Except Peg.ParseError (List Statement) := do
  let root ← Grammar.parse debug input
  statements root

end ChiliDB.Sql
