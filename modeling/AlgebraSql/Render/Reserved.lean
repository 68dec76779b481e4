/-!
# Reserved words — names that cannot stand unquoted, in capital letters.
-/

namespace AlgebraSql.Render

/-- The words that the language keeps for itself. -/
def reservedWords : List String := [
  "ALL", "AND", "ANY", "ARRAY", "AS", "ASC", "ASYMMETRIC", "BETWEEN", "BOTH", "BY", "CASE",
  "CAST", "CHECK", "COLLATE", "COLUMN", "CONSTRAINT", "CREATE", "CROSS", "CUBE", "CURRENT",
  "CURRENT_DATE", "CURRENT_TIME", "CURRENT_TIMESTAMP", "CURRENT_USER", "CURSOR", "DEFAULT",
  "DELETE", "DESC", "DISTINCT", "DROP", "ELSE", "END", "ESCAPE", "EXCEPT", "EXISTS", "FALSE",
  "FETCH", "FILTER", "FOR", "FOREIGN", "FROM", "FULL", "GRANT", "GROUP", "GROUPING", "HAVING",
  "IN", "INNER", "INSERT", "INTERSECT", "INTERVAL", "INTO", "IS", "JOIN", "LATERAL", "LEADING",
  "LEFT", "LIKE", "LIMIT", "LOCALTIME", "LOCALTIMESTAMP", "NATURAL", "NOT", "NULL", "OFFSET",
  "ON", "ONLY", "OR", "ORDER", "OUTER", "OVER", "PARTITION", "PRIMARY", "QUALIFY", "RANGE",
  "REFERENCES", "RIGHT", "ROLLUP", "ROW", "ROWS", "SELECT", "SESSION_USER", "SET", "SIMILAR",
  "SOME", "SYMMETRIC", "TABLE", "THEN", "TO", "TRAILING", "TRUE", "UNION", "UNIQUE", "UNKNOWN",
  "UPDATE", "USER", "USING", "VALUES", "WHEN", "WHERE", "WINDOW", "WITH", "WITHIN"]

end AlgebraSql.Render
