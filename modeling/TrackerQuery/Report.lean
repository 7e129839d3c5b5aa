import TrackerQuery.Document
import TrackerQuery.Report.Table
import TrackerQuery.Text.Bytes
import TrackerQuery.Token.Scan

/-!
# Reports

What is shown to a person: the tokens of a query, the columns of its result,
and errors with the place in the query marked.
-/

namespace TrackerQuery

namespace Report

/-- The kind of a token in a table. -/
def kindName : TokenKind → String
  | .name => "name"
  | .bracketedName => "bracketed name"
  | .variable => "variable"
  | .number => "number"
  | .string => "string"
  | .boolean => "bool"
  | .operation => "operation"

def tokenRows : (number : Nat) → List Token → List (List String)
  | _, [] => []
  | number, token :: rest =>
      [toString number, kindName token.kind, token.value, token.span.render]
        :: tokenRows (number + 1) rest

def tokens (tokens : List Token) : String :=
  if tokens.isEmpty then "Empty input\n"
  else
    let table : Table := ⟨["#", "Kind", "Value", "Span"], tokenRows 1 tokens⟩
    s!"{table.render}{tokens.length} token(s)\n"

def directionName (sort : SortField) : String :=
  if sort.descending then "desc" else "asc"

/-- The columns of the result with the direction they are sorted in, then in
parentheses the fields that are sorted by and not shown. -/
def fields (display : List String) (sort : List SortField) : String :=
  let shown := display.map fun field =>
    let direction := (sort.find? (·.referenceName == field)).map directionName
    [field, direction.getD ""]
  let hidden := sort.filter fun entry => !display.contains entry.referenceName
  let others := hidden.map fun entry => [s!"({entry.referenceName})", directionName entry]
  Table.render ⟨["Column", "Sort"], shown ++ others⟩

/-! ## Errors -/

/-- The color code of bold red, and the one that ends a color. -/
def boldRed : String := "\x1b[1;31m"

def endColor : String := "\x1b[0m"

/-- Marks text in bold red where colors are shown.  After an end of a color
inside the text it is set again. -/
def paint (colored : Bool) (text : String) : String :=
  if colored then boldRed ++ text.replace endColor (endColor ++ boldRed) ++ endColor else text

/-- The blanks before the mark under a query and the length of the mark.  A
place inside a character is shown at the end of the query. -/
def caret (query : String) : Option Span → Nat × Nat
  | some span =>
      let column := Text.charsBefore? (min span.start query.utf8ByteSize) query.toList
      (column.getD query.length, max span.length 1)
  | none => (query.length, 1)

def headline (e : Error) : String :=
  match e.fault? with
  | some cause => s!"error[{cause.code}]: {cause.message}"
  | none => s!"error: {e.message}"

/-- An error; a fault of the query is marked under its text. -/
def error (colored : Bool) (query : String) (e : Error) : String :=
  let first := paint colored (headline e) ++ "\n"
  match e with
  | .fault _ span =>
      let (column, length) := caret query span
      let mark := fill column " " ++ paint colored (fill length "^")
      s!"{first}  {query}\n  {mark}\n"
  | _ => first

/-- How to use the program. -/
def help : String := "
═══════════════════════════════════════════════════════════════
                      wiql-cli 命令帮助
═══════════════════════════════════════════════════════════════

直接输入 WIQL 查询，按当前阶段 (:stage) 输出结果：
  tokens     词法单元表格
  parse      语法树（重新打印为 WIQL）
  bind       绑定后的查询模式和语法树
  optimize   优化改写后的语法树
  compile    查询文档 XML、结果列和排序列（默认）

示例:
  select [System.Id], [System.Title] from WorkItems
    where [System.AssignedTo] = @me and [System.State] <> 'Closed'
    order by [System.Id] desc

  select * from WorkItemLinks
    where [System.Links.LinkType] = 'Child' mode (Recursive)

  :set project 'Fabrikam'
  select * from WorkItems where [System.TeamProject] = @project

═══════════════════════════════════════════════════════════════
控制台命令 (以 : 开头)，输入 :help 查看
═══════════════════════════════════════════════════════════════
"

end Report

end TrackerQuery
