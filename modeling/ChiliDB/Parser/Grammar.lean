import ChiliDB.Lib.Fallible
import ChiliDB.Peg.Agreement

/-!
# The SQL grammar

`crates/parser/src/grammar.rs`, rule by rule: what `grammar!` makes of its text.  A group of one element is
that element, a literal with an `i` behind it ignores ASCII case, and the rules whose names start with `_`
make no nodes.

* `rules` — the grammar; `names` — its rules by name.
* `parse` — the generated `parse`.
-/

namespace ChiliDB.Sql.Grammar

open Effect

instance : Coe String Peg.Expr := ⟨.ref⟩

def digit : Peg.Expr := .class_ [('0', '9')] false

/-- `'WORD'i !_ident_rest _ws`. -/
def keyword (word : String) : Peg.Expr := .seq [.lit word true, .predicate "_ident_rest" false, "_ws"]

/-- The words of `_reserved`, in their order. -/
def reserved : List String :=
  ["SELECT", "FROM", "WHERE", "CREATE", "TABLE", "INSERT", "INTO", "VALUES", "UPDATE", "SET",
   "DELETE", "BEGIN", "COMMIT", "ROLLBACK", "OR", "AND", "NOT", "IS", "NULL", "TRUE", "FALSE",
   "PRIMARY", "KEY", "UNIQUE", "ORDER", "BY", "LIMIT", "JOIN", "AS", "GROUP", "HAVING", "UNION",
   "DISTINCT", "ASC", "DESC", "NULLS", "FIRST", "LAST", "FILTER", "OVER", "PARTITION", "ROWS",
   "RANGE", "BETWEEN", "UNBOUNDED", "PRECEDING", "FOLLOWING", "CURRENT", "ROW"]

def rules : List Peg.Rule :=
  [⟨"Root", .seq ["_ws", .optional (.seq ["Statement", .repeat_ (.seq ["_semi", "Statement"]) false,
      .optional "_semi"])]⟩,
   ⟨"Statement", .choice ["Select", "CreateTable", "Insert", "Update", "Delete", "Begin", "Commit",
      "Rollback"]⟩,
   ⟨"Select", .seq ["_select", "Projection", .optional "From", .optional "Where", .optional
      "GroupBy", .optional "Having", .optional "OrderBy"]⟩,
   ⟨"Projection", .choice ["Star", .seq ["ProjectionItem", .repeat_ (.seq ["_comma",
      "ProjectionItem"]) false]]⟩,
   ⟨"ProjectionItem", .seq ["Expr", .optional (.seq ["_as", "Identifier", "_ws"])]⟩,
   ⟨"GroupBy", .seq ["_group", "_by", "Expr", .repeat_ (.seq ["_comma", "Expr"]) false]⟩,
   ⟨"Having", .seq ["_having", "Expr"]⟩,
   ⟨"OrderBy", .seq ["_order", "_by", "OrderByExpr", .repeat_ (.seq ["_comma", "OrderByExpr"])
      false]⟩,
   ⟨"OrderByExpr", .seq ["Expr", .optional "SortDirection", .optional "NullOrder"]⟩,
   ⟨"SortDirection", .choice ["_asc", "_desc"]⟩,
   ⟨"NullOrder", .seq ["_nulls", .choice ["_first", "_last"]]⟩,
   ⟨"FunctionCall", .seq ["Identifier", "_ws", "_lp", .optional "Distinct", .optional "Arguments",
      "_rp", .optional "CallFilter", .optional "Over"]⟩,
   ⟨"Distinct", "_distinct"⟩,
   ⟨"Arguments", .choice ["Star", .seq ["Expr", .repeat_ (.seq ["_comma", "Expr"]) false]]⟩,
   ⟨"CallFilter", .seq ["_filter", "_lp", "_where", "Expr", "_rp"]⟩,
   ⟨"Over", .seq ["_over", "WindowSpec"]⟩,
   ⟨"WindowSpec", .seq ["_lp", .optional "PartitionBy", .optional "OrderBy", .optional
      "WindowFrame", "_rp"]⟩,
   ⟨"PartitionBy", .seq ["_partition", "_by", "Expr", .repeat_ (.seq ["_comma", "Expr"]) false]⟩,
   ⟨"WindowFrame", .seq ["FrameUnits", .choice ["Between", "FrameBound"]]⟩,
   ⟨"FrameUnits", .choice ["_rows", "_range"]⟩,
   ⟨"Between", .seq ["_between", "FrameBound", "_and", "FrameBound"]⟩,
   ⟨"FrameBound", .choice ["UnboundedPreceding", "UnboundedFollowing", "CurrentRow", "Preceding",
      "Following"]⟩,
   ⟨"UnboundedPreceding", .seq ["_unbounded", "_preceding"]⟩,
   ⟨"UnboundedFollowing", .seq ["_unbounded", "_following"]⟩,
   ⟨"CurrentRow", .seq ["_current", "_row"]⟩,
   ⟨"Preceding", .seq ["Offset", "_ws", "_preceding"]⟩,
   ⟨"Following", .seq ["Offset", "_ws", "_following"]⟩,
   ⟨"Offset", .seq [.repeat_ digit true, .predicate "_ident_rest" false]⟩,
   ⟨"Star", .seq [.lit "*" false, "_ws"]⟩,
   ⟨"From", .seq ["_from", "Identifier", "_ws"]⟩,
   ⟨"Where", .seq ["_where", "Expr"]⟩,
   ⟨"CreateTable", .seq ["_create", "_table", "Identifier", "_ws", "_lp", "ColumnDef", .repeat_
      (.seq ["_comma", "ColumnDef"]) false, "_rp"]⟩,
   ⟨"ColumnDef", .seq ["Identifier", "_ws", "DataType", .repeat_ "Constraint" false]⟩,
   ⟨"DataType", .choice ["IntegerType", "BigIntType", "TextType", "BooleanType", "RealType",
      "DoubleType", "VarcharType"]⟩,
   ⟨"IntegerType", .seq [.choice [.lit "INTEGER" true, .lit "INT" true], .predicate "_ident_rest"
      false, "_ws"]⟩,
   ⟨"BigIntType", keyword "BIGINT"⟩,
   ⟨"TextType", keyword "TEXT"⟩,
   ⟨"BooleanType", .seq [.choice [.lit "BOOLEAN" true, .lit "BOOL" true], .predicate "_ident_rest"
      false, "_ws"]⟩,
   ⟨"RealType", keyword "REAL"⟩,
   ⟨"DoubleType", keyword "DOUBLE"⟩,
   ⟨"VarcharType", .seq [.lit "VARCHAR" true, .predicate "_ident_rest" false, "_ws",
      .optional (.seq ["_lp", "Length", "_ws", "_rp"])]⟩,
   ⟨"Length", .repeat_ digit true⟩,
   ⟨"Constraint", .choice ["NotNull", "PrimaryKey", "Unique"]⟩,
   ⟨"NotNull", .seq ["_not", "_null"]⟩,
   ⟨"PrimaryKey", .seq ["_primary", "_key"]⟩,
   ⟨"Unique", "_unique"⟩,
   ⟨"Insert", .seq ["_insert", "_into", "Identifier", "_ws", .optional "Columns", "_values", "Row",
      .repeat_ (.seq ["_comma", "Row"]) false]⟩,
   ⟨"Columns", .seq ["_lp", "Identifier", "_ws", .repeat_ (.seq ["_comma", "Identifier", "_ws"])
      false, "_rp"]⟩,
   ⟨"Row", .seq ["_lp", "Expr", .repeat_ (.seq ["_comma", "Expr"]) false, "_rp"]⟩,
   ⟨"Update", .seq ["_update", "Identifier", "_ws", "_set", "Assignment", .repeat_ (.seq ["_comma",
      "Assignment"]) false, .optional "Where"]⟩,
   ⟨"Assignment", .seq ["Identifier", "_ws", .lit "=" false, "_ws", "Expr"]⟩,
   ⟨"Delete", .seq ["_delete", "_from", "Identifier", "_ws", .optional "Where"]⟩,
   ⟨"Begin", "_begin"⟩,
   ⟨"Commit", "_commit"⟩,
   ⟨"Rollback", "_rollback"⟩,
   ⟨"Expr", "Or"⟩,
   ⟨"Or", .seq ["And", .repeat_ (.seq ["OrOp", "And"]) false]⟩,
   ⟨"OrOp", "_or"⟩,
   ⟨"And", .seq ["Not", .repeat_ (.seq ["AndOp", "Not"]) false]⟩,
   ⟨"AndOp", "_and"⟩,
   ⟨"Not", .choice [.seq ["NotOp", "Not"], "Comparison"]⟩,
   ⟨"NotOp", "_not"⟩,
   ⟨"Comparison", .seq ["Additive", .optional (.choice [.seq ["CompareOp", "Additive"], "IsNull"])]⟩,
   ⟨"CompareOp", .seq [.choice [.lit "<=" false, .lit ">=" false, .lit "<>" false, .lit "!=" false,
      .lit "=" false, .lit "<" false, .lit ">" false], "_ws"]⟩,
   ⟨"IsNull", .seq ["_is", .optional "IsNot", "_null"]⟩,
   ⟨"IsNot", "_not"⟩,
   ⟨"Additive", .seq ["Multiplicative", .repeat_ (.seq ["AddOp", "Multiplicative"]) false]⟩,
   ⟨"AddOp", .seq [.choice [.lit "+" false, .lit "-" false], "_ws"]⟩,
   ⟨"Multiplicative", .seq ["Unary", .repeat_ (.seq ["MulOp", "Unary"]) false]⟩,
   ⟨"MulOp", .seq [.choice [.lit "*" false, .lit "/" false, .lit "%" false], "_ws"]⟩,
   ⟨"Unary", .choice [.seq ["UnaryOp", "Unary"], "Primary"]⟩,
   ⟨"UnaryOp", .seq [.choice [.lit "+" false, .lit "-" false], "_ws"]⟩,
   ⟨"Primary", .choice [.seq ["Number", "_ws"], .seq ["String", "_ws"], "Null", "True", "False",
      "FunctionCall", "Name", .seq ["_lp", "Expr", "_rp"]]⟩,
   ⟨"Name", .seq ["Identifier", "_ws", .optional (.seq [.lit "." false, "_ws", "Identifier",
      "_ws"])]⟩,
   ⟨"Number", .seq [.choice [.seq [.repeat_ digit true, .optional (.seq [.lit "." false, .repeat_
      digit true])], .seq [.lit "." false, .repeat_ digit true]], .optional (.seq [.class_ [('e',
      'e'), ('E', 'E')] false, .optional (.class_ [('+', '+'), ('-', '-')] false), .repeat_ digit
      true]), .predicate "_ident_rest" false]⟩,
   ⟨"String", .seq [.lit "'" false, .repeat_ (.choice [.lit "''" false, .seq [.predicate (.lit "'"
      false) false, .any]]) false, .lit "'" false]⟩,
   ⟨"Null", "_null"⟩,
   ⟨"True", "_true"⟩,
   ⟨"False", "_false"⟩,
   ⟨"Identifier", .choice ["QuotedIdentifier", "BareIdentifier"]⟩,
   ⟨"QuotedIdentifier", .seq [.lit "\"" false, .repeat_ (.choice [.lit "\"\"" false, .seq
      [.predicate (.lit "\"" false) false, .any]]) true, .lit "\"" false]⟩,
   ⟨"BareIdentifier", .seq [.predicate "_reserved" false, .class_ [('a', 'z'), ('A', 'Z'), ('_',
      '_')] false, .repeat_ "_ident_rest" false]⟩,
   ⟨"_ident_rest", .class_ [('a', 'z'), ('A', 'Z'), ('_', '_'), ('0', '9')] false⟩,
   ⟨"_reserved", .seq [.choice (reserved.map fun word => .lit word true),
      .predicate "_ident_rest" false]⟩,
   ⟨"_select", keyword "SELECT"⟩,
   ⟨"_from", keyword "FROM"⟩,
   ⟨"_where", keyword "WHERE"⟩,
   ⟨"_create", keyword "CREATE"⟩,
   ⟨"_table", keyword "TABLE"⟩,
   ⟨"_insert", keyword "INSERT"⟩,
   ⟨"_into", keyword "INTO"⟩,
   ⟨"_values", keyword "VALUES"⟩,
   ⟨"_update", keyword "UPDATE"⟩,
   ⟨"_set", keyword "SET"⟩,
   ⟨"_delete", keyword "DELETE"⟩,
   ⟨"_begin", keyword "BEGIN"⟩,
   ⟨"_commit", keyword "COMMIT"⟩,
   ⟨"_rollback", keyword "ROLLBACK"⟩,
   ⟨"_or", keyword "OR"⟩,
   ⟨"_and", keyword "AND"⟩,
   ⟨"_not", keyword "NOT"⟩,
   ⟨"_is", keyword "IS"⟩,
   ⟨"_null", keyword "NULL"⟩,
   ⟨"_true", keyword "TRUE"⟩,
   ⟨"_false", keyword "FALSE"⟩,
   ⟨"_primary", keyword "PRIMARY"⟩,
   ⟨"_key", keyword "KEY"⟩,
   ⟨"_unique", keyword "UNIQUE"⟩,
   ⟨"_as", keyword "AS"⟩,
   ⟨"_group", keyword "GROUP"⟩,
   ⟨"_by", keyword "BY"⟩,
   ⟨"_having", keyword "HAVING"⟩,
   ⟨"_order", keyword "ORDER"⟩,
   ⟨"_asc", keyword "ASC"⟩,
   ⟨"_desc", keyword "DESC"⟩,
   ⟨"_nulls", keyword "NULLS"⟩,
   ⟨"_first", keyword "FIRST"⟩,
   ⟨"_last", keyword "LAST"⟩,
   ⟨"_distinct", keyword "DISTINCT"⟩,
   ⟨"_filter", keyword "FILTER"⟩,
   ⟨"_over", keyword "OVER"⟩,
   ⟨"_partition", keyword "PARTITION"⟩,
   ⟨"_rows", keyword "ROWS"⟩,
   ⟨"_range", keyword "RANGE"⟩,
   ⟨"_between", keyword "BETWEEN"⟩,
   ⟨"_unbounded", keyword "UNBOUNDED"⟩,
   ⟨"_preceding", keyword "PRECEDING"⟩,
   ⟨"_following", keyword "FOLLOWING"⟩,
   ⟨"_current", keyword "CURRENT"⟩,
   ⟨"_row", keyword "ROW"⟩,
   ⟨"_lp", .seq [.lit "(" false, "_ws"]⟩,
   ⟨"_rp", .seq [.lit ")" false, "_ws"]⟩,
   ⟨"_comma", .seq [.lit "," false, "_ws"]⟩,
   ⟨"_semi", .seq [.lit ";" false, "_ws"]⟩,
   ⟨"_ws", .repeat_ (.choice [.class_ [(' ', ' '), ('\t', '\t'), ('\r', '\r'), ('\n', '\n')] false,
      "_line_comment", "_block_comment"]) false⟩,
   ⟨"_line_comment", .seq [.lit "--" false, .repeat_ (.seq [.predicate (.lit "\n" false) false,
      .any]) false, .choice [.lit "\n" false, .predicate .any false]]⟩,
   ⟨"_block_comment", .seq [.lit "/*" false, .repeat_ (.seq [.predicate (.lit "*/" false) false,
      .any]) false, .lit "*/" false]⟩]

/-- What `validate` returns. -/
def names : Peg.Names := (Peg.validate rules).toOption.getD ∅

theorem validate_succeeds : (Peg.validate rules).toBool = true := by decide +kernel

/-- **The grammar is valid.** -/
theorem rules_valid : Peg.validate rules = .ok names := eq_ok_of_toBool validate_succeeds

/-- The names without a run of `validate`, for parses of given texts. -/
def table : Peg.Names :=
  ⟨Peg.numbered rules 0, Peg.validate_entries rules_valid ▸ names.nodupKeys⟩

theorem names_eq_table : names = table := AList.ext (Peg.validate_entries rules_valid)

/-- `grammar::parse`: the first rule is the entry. -/
def parse (debug : Peg.Debug) (input : String) : Except Peg.ParseError Peg.Node :=
  Peg.parseRule debug rules names "Root" input

/-- The debug text of printable characters. -/
def printable : Peg.Debug := ⟨String.singleton, String.singleton⟩

end ChiliDB.Sql.Grammar
